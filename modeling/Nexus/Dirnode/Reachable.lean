import Nexus.Dirnode.Sound

/-!
# Reachable dirnodes store and load

A dirnode is reachable when the operations of `dirnode.c` build it from
`dirnode_create`.  Storing it and loading it back gives the same directory,
provided that no step of the run overflowed the one-byte length of a symlink
record, left the tail of a longer attribute value behind, or renamed an entry
onto itself.
-/

namespace Nexus

open Codec

/-- The calls that change a dirnode.  A rename between two dirnodes is one call,
which changes its source (`renameTo`) and its destination (`renameFrom`). -/
inductive DirnodeOp where
  | add (name : Name) (type : DirentType) (uuid fresh : Uuid)
  | addLink (name : Name) (target : Bytes) (uuid fresh : Uuid)
  | remove (name : Name) (type : Option DirentType) (uuid : Uuid)
  | rename (oldname newname : Name) (fresh : Uuid)
  | renameTo (dst : Dirnode) (oldname newname : Name) (fresh : Uuid)
  | renameFrom (src : Dirnode) (oldname newname : Name) (fresh : Uuid)
  | attributeAdd (uuid : Uuid) (value : Bytes)
  | attributeDel (uuid : Uuid)
  | attributeSetAuditLog (uuid : Uuid)

namespace DirnodeOp

/-- The dirnode after the call. -/
def apply (d : Dirnode) : DirnodeOp → Dirnode
  | add name type uuid fresh => (dirnodeAdd d name type uuid fresh).1
  | addLink name target uuid fresh => (dirnodeAddLink d name target uuid fresh).1
  | remove name type uuid => (dirnodeRemove d name type uuid).1
  | rename oldname newname fresh => (dirnodeRenameWithin d oldname newname fresh).1
  | renameTo dst oldname newname fresh => (dirnodeRenameAcross d dst oldname newname fresh).1
  | renameFrom src oldname newname fresh =>
    (dirnodeRenameAcross src d oldname newname fresh).2.1
  | attributeAdd uuid value =>
    { d with attributeTable := attributeTableAdd d.attributeTable uuid value }
  | attributeDel uuid =>
    match attributeTableDel d.attributeTable uuid with
    | none => d
    | some t => { d with attributeTable := t }
  | attributeSetAuditLog uuid =>
    { d with attributeTable := attributeTableSetAuditLog d.attributeTable uuid }

/-- The other dirnode of a rename. -/
def other : DirnodeOp → Option Dirnode
  | renameTo dst .. => some dst
  | renameFrom src .. => some src
  | _ => none

/-- What every caller ensures: bucket uuids are new, paths are strings below
the path limit, and counters of 64 bits do not wrap. -/
def Valid (d : Dirnode) : DirnodeOp → Prop
  | add _ _ _ fresh => fresh ∉ d.bucketList.map Bucket.uuid
  | addLink _ target _ fresh =>
    fresh ∉ d.bucketList.map Bucket.uuid ∧ (0 : UInt8) ∉ target ∧ target.length < nexusPathMax
  | rename _ _ fresh => fresh ∉ d.bucketList.map Bucket.uuid
  | renameTo dst _ _ fresh => fresh ∉ dst.bucketList.map Bucket.uuid
  | renameFrom _ _ _ fresh => fresh ∉ d.bucketList.map Bucket.uuid
  | attributeAdd _ _ => d.attributeTable.count + 1 < 2 ^ 64
  | _ => True

/-- The calls whose effect the format can hold. -/
def Benign (d : Dirnode) : DirnodeOp → Prop
  | addLink _ target _ _ => SymlinkFits d target
  | rename oldname newname _ => oldname = newname → d.lookup oldname = none
  | renameTo dst oldname _ _ => RenameFits d dst oldname
  | renameFrom src oldname _ _ => RenameFits src d oldname
  | attributeAdd uuid value => AttributeAddClean d.attributeTable uuid value
  | _ => True

end DirnodeOp

/-- The dirnodes that runs build whose every call meets `ok`. -/
inductive DirnodeReachable (ok : Dirnode → DirnodeOp → Prop) : Dirnode → Prop where
  | create (rootUuid myUuid bucket0 : Uuid) :
      DirnodeReachable ok (dirnodeCreate rootUuid myUuid bucket0)
  | step {d : Dirnode} (op : DirnodeOp) (reached : DirnodeReachable ok d)
      (other : ∀ d' ∈ op.other, DirnodeReachable ok d') (valid : op.Valid d) (allowed : ok d op) :
      DirnodeReachable ok (op.apply d)

/-! ## The invariant of a run -/

/-- A sound dirnode that was never stored. -/
structure Dirnode.Unsaved (d : Dirnode) : Prop where
  sound : d.Sound
  dirty : ∀ b ∈ d.bucketList.drop 1, b.isDirty = true

theorem Dirnode.Unsaved.of_bucketsFrom {d d' : Dirnode} (h : d.Unsaved) (hsound : d'.Sound)
    (hfrom : d.BucketsFrom d') : d'.Unsaved := by
  refine ⟨hsound, ?_⟩
  intro b hb
  rcases hfrom b hb with hb | hb
  · exact h.dirty b hb
  · exact hb

theorem dirnodeCreate_unsaved (rootUuid myUuid bucket0 : Uuid) :
    (dirnodeCreate rootUuid myUuid bucket0).Unsaved :=
  ⟨dirnodeCreate_sound .., by simp [dirnodeCreate]⟩

theorem DirnodeOp.apply_sound {d : Dirnode} {op : DirnodeOp} (h : d.Sound)
    (hother : ∀ d' ∈ op.other, d'.Sound) (hvalid : op.Valid d) (hbenign : op.Benign d) :
    (op.apply d).Sound := by
  cases op with
  | add name type uuid fresh => exact dirnodeAdd_sound h name type uuid hvalid
  | addLink name target uuid fresh => exact dirnodeAddLink_sound h name uuid hvalid.1 hbenign
  | remove name type uuid => exact dirnodeRemove_sound h name type uuid
  | rename oldname newname fresh => exact dirnodeRenameWithin_sound h oldname newname hvalid
  | renameTo dst oldname newname fresh =>
    exact (dirnodeRenameAcross_sound h (hother dst rfl) newname hvalid hbenign).1
  | renameFrom src oldname newname fresh =>
    exact (dirnodeRenameAcross_sound (hother src rfl) h newname hvalid hbenign).2
  | attributeAdd uuid value =>
    have ht := h.wf.attributeTable
    exact h.setAttributeTable (attributeTableAdd_wf ht uuid value fun _ => hvalid)
      (attributeTableAdd_canonical ht h.attributes hbenign)
  | attributeDel uuid =>
    simp only [apply]
    cases hdel : attributeTableDel d.attributeTable uuid with
    | none => exact h
    | some t =>
      exact h.setAttributeTable (attributeTableDel_wf h.wf.attributeTable hdel)
        (attributeTableDel_canonical h.attributes hdel)
  | attributeSetAuditLog uuid =>
    exact h.setAttributeTable (attributeTableSetAuditLog_wf h.wf.attributeTable uuid) h.attributes

theorem DirnodeOp.apply_edits {d : Dirnode} (op : DirnodeOp) (h : d.WF)
    (hother : ∀ d' ∈ op.other, d'.WF) : Dirnode.Edits 1 d (op.apply d) := by
  cases op with
  | add name type uuid fresh => exact dirnodeAdd_edits h.coherent name type uuid fresh
  | addLink name target uuid fresh =>
    exact dirnodeAddLink_edits h.coherent name target uuid fresh
  | remove name type uuid => exact (dirnodeRemove_edits d name type uuid).trans (.refl 1 _)
  | rename oldname newname fresh =>
    exact dirnodeRenameWithin_edits h.coherent oldname newname fresh
  | renameTo dst oldname newname fresh =>
    have hedits := dirnodeRenameAcross_edits h.coherent (hother dst rfl).coherent oldname newname
      fresh
    exact hedits.1.trans (.refl 1 _)
  | renameFrom src oldname newname fresh =>
    exact (dirnodeRenameAcross_edits (hother src rfl).coherent h.coherent oldname newname fresh).2
  | attributeAdd uuid value => exact (Dirnode.Edit.attributes d _).edits 1
  | attributeDel uuid =>
    simp only [apply]
    cases attributeTableDel d.attributeTable uuid with
    | none => exact .refl 1 d
    | some t => exact (Dirnode.Edit.attributes d t).edits 1
  | attributeSetAuditLog uuid => exact (Dirnode.Edit.attributes d _).edits 1

theorem DirnodeOp.apply_unsaved {d : Dirnode} {op : DirnodeOp} (h : d.Unsaved)
    (hother : ∀ d' ∈ op.other, d'.Unsaved) (hvalid : op.Valid d) (hbenign : op.Benign d) :
    (op.apply d).Unsaved :=
  h.of_bucketsFrom
    (op.apply_sound h.sound (fun d' hd' => (hother d' hd').sound) hvalid hbenign)
    (op.apply_edits h.sound.wf fun d' hd' => (hother d' hd').sound.wf).bucketsFrom

theorem DirnodeReachable.unsaved {d : Dirnode} (h : DirnodeReachable (fun d op => op.Benign d) d) :
    d.Unsaved := by
  induction h with
  | create rootUuid myUuid bucket0 => exact dirnodeCreate_unsaved rootUuid myUuid bucket0
  | step op _ _ hvalid hbenign ih ihother =>
    exact DirnodeOp.apply_unsaved ih ihother hvalid hbenign

/-! ## Storing and loading -/

/-- No call that a store makes fails. -/
structure StoreOutcome.Succeeds (o : StoreOutcome) : Prop where
  macversion : o.macversion.isSome
  bucketStore : ∀ uuid, o.bucketStore uuid = true
  put : o.put = true

theorem dirnodeStore_succeeds {o : StoreOutcome} (h : o.Succeeds) (d : Dirnode)
    (s : StoredDirnode) : (dirnodeStore o d s).2.2 = true := by
  obtain ⟨mv, hmv⟩ := Option.isSome_iff_exists.mp h.macversion
  simp [dirnodeStore, hmv, storeOtherBuckets_ok h.bucketStore, h.put]

/-- Whatever the datastore held, storing the dirnode writes as many bytes as
were allocated, and loading it back gives the directory in memory, which the
store did not change. -/
def Dirnode.RoundTrips (d : Dirnode) : Prop :=
  ∀ (o : StoreOutcome) (s : StoredDirnode), o.Succeeds →
    let (d', s', ok) := dirnodeStore o d s
    ok = true ∧ (dirnodeSerialize d').length = getBucket0Size d' ∧
      (∀ name, d'.lookup name = d.lookup name) ∧
      (∀ uuid, dirnodeGetLink d' uuid = dirnodeGetLink d uuid) ∧
      ∃ loaded, dirnodeLoad s' = some loaded ∧ loaded.Same d'

theorem reachable_roundTrips {d : Dirnode}
    (h : DirnodeReachable (fun d op => op.Benign d) d) (hbuckets : d.bucketCount ≤ 65535) :
    d.RoundTrips := by
  intro o s hsucceeds
  have hunsaved := h.unsaved
  have hstorable : d.Storable := ⟨hunsaved.sound, hbuckets⟩
  have hok := dirnodeStore_succeeds hsucceeds d s
  -- a bucket that was never stored is dirty, so none relies on the datastore
  have hsync : BucketsSynced s.buckets (d.bucketList.drop 1) := by
    intro b hb hclean
    simp [hunsaved.dirty b hb] at hclean
  have hstored := dirnodeStore_storable hstorable o s
  exact ⟨hok, length_dirnodeSerialize hstored, dirnodeStore_lookup o d s,
    dirnodeStore_getLink o d s, _, dirnodeLoad_store hstorable hsync hok,
    reloaded_same hstored.wf⟩

/-! ### Two runs -/

private def someStore : StoreOutcome where
  macversion := some ⟨0, 0⟩
  bucketStore := fun _ => true
  bucketMac := fun _ => 0
  bucketDelete := fun _ => true
  put := true

/-- One call on a fresh directory: a symlink with a target of `n` bytes. -/
def linkOnly (n : Nat) : Dirnode :=
  (DirnodeOp.addLink linkName (List.replicate n 0x61) 7 8).apply (dirnodeCreate 1 2 3)

theorem linkOnly_reachable {ok : Dirnode → DirnodeOp → Prop} {n : Nat} (hn : n < nexusPathMax)
    (hok : ok (dirnodeCreate 1 2 3) (.addLink linkName (List.replicate n 0x61) 7 8)) :
    DirnodeReachable ok (linkOnly n) := by
  refine .step _ (.create 1 2 3) (by simp [DirnodeOp.other]) ⟨by decide, ?_, ?_⟩ hok
  · intro hmem
    exact absurd (List.eq_of_mem_replicate hmem) (by decide)
  · rwa [List.length_replicate]

theorem linkOnly_roundTrips : (linkOnly 5).RoundTrips :=
  reachable_roundTrips (linkOnly_reachable (by decide) ⟨by decide, by decide⟩) (by decide)

/-- A target of 300 bytes does not come back. -/
theorem linkOnly_not_roundTrips :
    DirnodeReachable (fun _ _ => True) (linkOnly 300) ∧ (linkOnly 300).bucketCount ≤ 65535 ∧
      ¬ (linkOnly 300).RoundTrips := by
  refine ⟨linkOnly_reachable (by decide) trivial, by decide, ?_⟩
  intro h
  obtain ⟨-, hsize, -⟩ := h someStore ⟨[], fun _ => none⟩ ⟨rfl, fun _ => rfl, rfl⟩
  revert hsize
  decide +kernel

end Nexus
