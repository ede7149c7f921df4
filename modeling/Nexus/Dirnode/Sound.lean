import Nexus.Dirnode.RoundTrip
import Nexus.Dirnode.Edits

/-!
# The operations keep a dirnode sound

Beside its invariant, a dirnode that can be written back whole needs symlink
records whose one-byte length is right and attribute values that end where
their length says.  Every operation keeps that under a condition on its
arguments, and leaves a bucket alone unless it marks it dirty.
-/

namespace Nexus

open Codec List

/-! ## The symlink list and the attribute table -/

/-- The parts of a dirnode that adding and deleting entries leaves alone. -/
structure Dirnode.SameTables (d d' : Dirnode) : Prop where
  symlinkList : d'.symlinkList = d.symlinkList
  symlinkBuflen : d'.symlinkBuflen = d.symlinkBuflen
  attributeTable : d'.attributeTable = d.attributeTable

theorem Dirnode.SameTables.trans {a b c : Dirnode} (hab : a.SameTables b)
    (hbc : b.SameTables c) : a.SameTables c where
  symlinkList := hbc.symlinkList.trans hab.symlinkList
  symlinkBuflen := hbc.symlinkBuflen.trans hab.symlinkBuflen
  attributeTable := hbc.attributeTable.trans hab.attributeTable

variable {d : Dirnode}

theorem Dirnode.Sound.of_sameTables {d' : Dirnode} (h : d.Sound) (hwf : d'.WF)
    (hsame : d.SameTables d') : d'.Sound where
  wf := hwf
  symlinks := by
    rw [hsame.symlinkList]
    exact h.symlinks
  symlinkBuflen := by
    rw [hsame.symlinkBuflen, hsame.symlinkList]
    exact h.symlinkBuflen
  symlinkFits := by
    rw [hsame.symlinkBuflen]
    exact h.symlinkFits
  attributes := by
    rw [hsame.attributeTable]
    exact h.attributes

theorem findByName_sameTables (d : Dirnode) (name : Name) :
    d.SameTables (findByName d name).1 := by
  obtain ⟨last, hframe⟩ := findByName_frame d name
  rw [hframe]
  exact ⟨rfl, rfl, rfl⟩

theorem dirnodeAddDirentry_sameTables (d : Dirnode) (e : DirEntry) (fresh : Uuid) :
    d.SameTables (dirnodeAddDirentry d e fresh) := by
  unfold dirnodeAddDirentry getAvailableBucket
  split <;> exact ⟨rfl, rfl, rfl⟩

theorem dirnodeDelDirentry_sameTables (d : Dirnode) (e : DirEntry) :
    d.SameTables (dirnodeDelDirentry d e) := ⟨rfl, rfl, rfl⟩

theorem clobberOverwritten_sameTables (d : Dirnode) (o : Option DirEntry) :
    d.SameTables (clobberOverwritten d o) := by
  cases o <;> exact ⟨rfl, rfl, rfl⟩

theorem dirnodeCreate_sound (rootUuid myUuid bucket0 : Uuid) :
    (dirnodeCreate rootUuid myUuid bucket0).Sound where
  wf := dirnodeCreate_wf rootUuid myUuid bucket0
  symlinks := by simp [dirnodeCreate]
  symlinkBuflen := rfl
  symlinkFits := Nat.two_pow_pos 32
  attributes := by
    intro e he
    simp [dirnodeCreate, attributeTableCreate] at he

/-! ## Symlink records -/

theorem newSymlinkEntry_target {uuid : Uuid} {target : Bytes} (hnul : (0 : UInt8) ∉ target)
    (hlen : target.length ≤ nexusPathMax) : (newSymlinkEntry uuid target).target = target := by
  show (cstring (target ++ [0])).take nexusPathMax = target
  rw [cstring_append_zero hnul, take_of_length_le hlen]

theorem SymlinkEntry.Sound.totalLen {l : SymlinkEntry} (h : l.Sound) :
    l.totalLen.toNat = symlinkTotalLen l.target ∧ (0 : UInt8) ∉ l.target ∧
      l.target.length ≤ symlinkTargetMax := by
  obtain ⟨target, hnul, hlen, heq⟩ := h
  have htarget : l.target = target := by
    rw [heq, newSymlinkEntry_target hnul (hlen.trans (by decide))]
  rw [htarget]
  refine ⟨?_, hnul, hlen⟩
  rw [heq]
  exact newSymlinkEntry_totalLen hlen l.uuid

theorem symlinkLenSum_append (xs ys : List SymlinkEntry) :
    symlinkLenSum (xs ++ ys) = symlinkLenSum xs + symlinkLenSum ys := by
  simp [symlinkLenSum]

theorem symlinkLenSum_erase {l : SymlinkEntry} {ls : List SymlinkEntry} (h : l ∈ ls) :
    symlinkLenSum ls = l.totalLen.toNat + symlinkLenSum (ls.erase l) := by
  have hperm := (perm_cons_erase h).map fun l : SymlinkEntry => l.totalLen.toNat
  simpa [symlinkLenSum] using hperm.sum_eq

/-- A short target whose record still fits the buffer length of the dirnode. -/
structure SymlinkFits (d : Dirnode) (target : Bytes) : Prop where
  length : ((cstring target).take nexusPathMax).length ≤ symlinkTargetMax
  buflen : d.symlinkBuflen + symlinkTotalLen ((cstring target).take nexusPathMax) < 2 ^ 32

theorem dirnodeAddSymlink_sound (h : d.Sound) (uuid : Uuid) {target : Bytes}
    (hfits : SymlinkFits d target) : (dirnodeAddSymlink d uuid target).Sound := by
  have hnul : (0 : UInt8) ∉ (cstring target).take nexusPathMax := fun hmem =>
    zero_notMem_cstring target (mem_of_mem_take hmem)
  have hwf := dirnodeAddSymlink_wf h.wf uuid target
  have hlen := hfits.length
  have hbuflen := hfits.buflen
  unfold dirnodeAddSymlink at hwf ⊢
  generalize (cstring target).take nexusPathMax = t at hnul hwf hlen hbuflen ⊢
  refine { wf := hwf, symlinks := ?_, symlinkBuflen := ?_, symlinkFits := hbuflen,
           attributes := h.attributes }
  · intro l hl
    rcases mem_append.mp hl with hl | hl
    · exact h.symlinks l hl
    · rw [mem_singleton.mp hl]
      exact ⟨t, hnul, hlen, rfl⟩
  · show d.symlinkBuflen + symlinkTotalLen t
      = symlinkLenSum (d.symlinkList ++ [newSymlinkEntry uuid t])
    rw [symlinkLenSum_append, h.symlinkBuflen, ← newSymlinkEntry_totalLen hlen uuid]
    simp [symlinkLenSum]

theorem removeSymlink_sound (h : d.Sound) (uuid : Uuid) :
    (removeSymlink d uuid).1.Sound := by
  have hwf := removeSymlink_wf h.wf uuid
  unfold removeSymlink at hwf ⊢
  cases hfind : findSymlink d uuid with
  | none => exact h
  | some l =>
    simp only [hfind] at hwf
    have hmem : l ∈ d.symlinkList := mem_of_find?_eq_some hfind
    have hsum := symlinkLenSum_erase hmem
    have hbuflen := h.symlinkBuflen
    have hfits := h.symlinkFits
    refine { wf := hwf, symlinks := ?_, symlinkBuflen := ?_, symlinkFits := ?_,
             attributes := h.attributes }
    · intro k hk
      exact h.symlinks k (mem_of_mem_erase hk)
    · show d.symlinkBuflen - l.totalLen.toNat = symlinkLenSum (d.symlinkList.erase l)
      omega
    · show d.symlinkBuflen - l.totalLen.toNat < 2 ^ 32
      omega

theorem moveSymlink_sound {src dst : Dirnode} (hsrc : src.Sound) (hdst : dst.Sound)
    {uuid : Uuid}
    (hfits : ∀ l ∈ findSymlink src uuid, dst.symlinkBuflen + l.totalLen.toNat < 2 ^ 32) :
    (moveSymlink src dst uuid).1.Sound ∧ (moveSymlink src dst uuid).2.Sound := by
  have hrem := removeSymlink_sound hsrc uuid
  unfold moveSymlink
  cases hfind : findSymlink src uuid with
  | none =>
    simp only [removeSymlink, hfind]
    exact ⟨hsrc, hdst⟩
  | some l =>
    simp only [removeSymlink, hfind] at hrem ⊢
    have hl : l.Sound := hsrc.symlinks l (mem_of_find?_eq_some hfind)
    obtain ⟨htotal, hnul, hlen⟩ := hl.totalLen
    have hself : (cstring l.target).take nexusPathMax = l.target := by
      rw [cstring_of_notMem hnul]
      exact take_of_length_le (hlen.trans (by decide))
    refine ⟨hrem, dirnodeAddSymlink_sound hdst uuid ⟨?_, ?_⟩⟩
    · rw [hself]
      exact hlen
    · rw [hself, ← htotal]
      exact hfits l hfind

/-! ## The operations -/

variable {fresh : Uuid}

theorem dirnodeAdd_sameTables (h : d.WF) (name : Name) (type : DirentType) (uuid fresh : Uuid) :
    d.SameTables (dirnodeAdd d name type uuid fresh).1 := by
  rw [dirnodeAdd_eq h.coherent]
  split
  · exact findByName_sameTables d name
  · exact dirnodeAddDirentry_sameTables d _ fresh

theorem dirnodeAdd_sound (h : d.Sound) (name : Name) (type : DirentType) (uuid : Uuid)
    (hfresh : fresh ∉ d.bucketList.map Bucket.uuid) :
    (dirnodeAdd d name type uuid fresh).1.Sound :=
  h.of_sameTables (dirnodeAdd_wf h.wf name type uuid hfresh)
    (dirnodeAdd_sameTables h.wf name type uuid fresh)

theorem dirnodeAddLink_sound (h : d.Sound) (name : Name) {target : Bytes} (uuid : Uuid)
    (hfresh : fresh ∉ d.bucketList.map Bucket.uuid) (hfits : SymlinkFits d target) :
    (dirnodeAddLink d name target uuid fresh).1.Sound := by
  have hadd := dirnodeAdd_sound h name .lnk uuid hfresh
  have hbuflen := (dirnodeAdd_sameTables h.wf name .lnk uuid fresh).symlinkBuflen
  unfold dirnodeAddLink
  generalize dirnodeAdd d name .lnk uuid fresh = r at hadd hbuflen
  obtain ⟨d', ok⟩ := r
  cases ok with
  | false => exact hadd
  | true =>
    refine dirnodeAddSymlink_sound hadd uuid ⟨hfits.length, ?_⟩
    rw [show d'.symlinkBuflen = d.symlinkBuflen from hbuflen]
    exact hfits.buflen

theorem dirnodeRemove_sound (h : d.Sound) (name : Name) (type : Option DirentType) (uuid : Uuid) :
    (dirnodeRemove d name type uuid).1.Sound := by
  have hres := findByName_result h.wf.coherent name
  have hfound := h.of_sameTables (findByName_wf h.wf name) (findByName_sameTables d name)
  obtain ⟨last, hframe⟩ := findByName_frame d name
  unfold dirnodeRemove
  generalize findByName d name = r at hres hframe hfound
  obtain ⟨d', found⟩ := r
  dsimp only at hres hframe hfound
  cases found with
  | none =>
    dsimp only
    split
    · exact removeSymlink_sound hfound uuid
    · exact hfound
  | some e =>
    have he : e ∈ d'.dirents := by
      rw [hframe]
      exact (Dirnode.mem_of_lookup hres.symm).1
    have hdel : (dirnodeDelDirentry d' e).Sound :=
      hfound.of_sameTables (dirnodeDelDirentry_wf hfound.wf he)
        (dirnodeDelDirentry_sameTables d' e)
    dsimp only
    split
    · exact removeSymlink_sound hdel e.linkUuid
    · exact hdel

theorem dirnodeRenameWithin_sound (h : d.Sound) (oldname newname : Name)
    (hfresh : fresh ∉ d.bucketList.map Bucket.uuid) :
    (dirnodeRenameWithin d oldname newname fresh).1.Sound := by
  have hwf := dirnodeRenameWithin_wf h.wf oldname newname hfresh
  refine h.of_sameTables hwf ?_
  rw [dirnodeRenameWithin_eq h.wf.coherent]
  cases d.lookup oldname with
  | none => exact findByName_sameTables d oldname
  | some e =>
    dsimp only
    split
    · exact findByName_sameTables d oldname
    · exact ((clobberOverwritten_sameTables d _).trans
        (dirnodeDelDirentry_sameTables _ e)).trans (dirnodeAddDirentry_sameTables _ _ fresh)

/-- The symlink record that a rename moves fits the destination. -/
def RenameFits (src dst : Dirnode) (oldname : Name) : Prop :=
  ∀ e ∈ src.lookup oldname, ∀ l ∈ findSymlink src e.linkUuid,
    dst.symlinkBuflen + l.totalLen.toNat < 2 ^ 32

theorem dirnodeRenameAcross_sound {src dst : Dirnode} (hsrc : src.Sound) (hdst : dst.Sound)
    {oldname : Name} (newname : Name) (hfresh : fresh ∉ dst.bucketList.map Bucket.uuid)
    (hfits : RenameFits src dst oldname) :
    (dirnodeRenameAcross src dst oldname newname fresh).1.Sound ∧
      (dirnodeRenameAcross src dst oldname newname fresh).2.1.Sound := by
  rw [dirnodeRenameAcross_eq hsrc.wf.coherent hdst.wf.coherent]
  cases hfind : src.lookup oldname with
  | none =>
    exact ⟨hsrc.of_sameTables (findByName_wf hsrc.wf oldname)
      (findByName_sameTables src oldname), hdst⟩
  | some e =>
    have hdel : (dirnodeDelDirentry src e).Sound :=
      hsrc.of_sameTables (dirnodeDelDirentry_wf hsrc.wf (Dirnode.mem_of_lookup hfind).1)
        (dirnodeDelDirentry_sameTables src e)
    have hfree : (clobberOverwritten dst (dst.lookup newname)).lookup newname = none := by
      rw [lookup_clobberOverwritten hdst.wf.coherent, if_pos rfl]
    have hsame := (clobberOverwritten_sameTables dst (dst.lookup newname)).trans
      (dirnodeAddDirentry_sameTables _ (renameDirEntry e newname) fresh)
    have hadd := hdst.of_sameTables (dirnodeAddDirentry_wf (clobberOverwritten_wf hdst.wf newname)
      (renameDirEntry_wf e newname) hfree (by simpa using hfresh)) hsame
    refine moveSymlink_sound hdel hadd ?_
    intro l hl
    rw [hsame.symlinkBuflen]
    exact hfits e hfind l hl

/-! ### Attributes -/

theorem Dirnode.Sound.setAttributeTable (h : d.Sound) {t : AttributeTable} (hwf : t.WF)
    (hcan : t.Canonical) : Dirnode.Sound { d with attributeTable := t } :=
  { h with wf := { h.wf with attributeTable := hwf }, attributes := hcan }

theorem attributeTableSetAuditLog_wf {t : AttributeTable} (h : t.WF) (uuid : Uuid) :
    (attributeTableSetAuditLog t uuid).WF :=
  ⟨h.count, h.countFits, h.entries, h.unique⟩

/-! ## Buckets are left alone or marked dirty -/

/-- Every bucket after the first is an old one or dirty. -/
def Dirnode.BucketsFrom (d d' : Dirnode) : Prop :=
  ∀ b ∈ d'.bucketList.drop 1, b ∈ d.bucketList.drop 1 ∨ b.isDirty = true

theorem Dirnode.Edits.bucketsFrom {n : Nat} {d' : Dirnode} (h : Edits n d d') :
    d.BucketsFrom d' := by
  intro b hb
  obtain ⟨k, hk⟩ := mem_iff_getElem?.mp hb
  rw [getElem?_drop] at hk
  rcases h.marksFrom (1 + k) b hk with hold | hdirty
  · rw [← getElem?_drop] at hold
    exact .inl (mem_of_getElem? hold)
  · exact .inr hdirty

theorem BucketsSynced.of_bucketsFrom {store : BucketStore} {d' : Dirnode}
    (h : BucketsSynced store (d.bucketList.drop 1)) (hfrom : d.BucketsFrom d') :
    BucketsSynced store (d'.bucketList.drop 1) := by
  intro b hb hclean
  rcases hfrom b hb with hb | hb
  · exact h b hb hclean
  · simp [hb] at hclean

end Nexus
