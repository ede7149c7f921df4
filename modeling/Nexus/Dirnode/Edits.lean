import Nexus.Dirnode.Invariant

/-!
# The edits of a dirnode

Every call of `dirnode.c` that changes a dirnode is a sequence of edits: a lookup,
which may change the memory of the last failed one, the addition of an entry under
a free name, the deletion of an entry, the addition and the removal of a symlink
record, and a change of the attribute table.  What each edit keeps, each call
keeps: the agreement of the redundant parts, and the marks on the buckets.  No call
adds more than one entry, and so none adds more than one bucket.
-/

namespace Nexus

/-- One edit that adds no entry. -/
inductive Dirnode.Edit : Dirnode → Dirnode → Prop where
  | look (d : Dirnode) (name : Name) : Edit d (findByName d name).1
  | del {d : Dirnode} {e : DirEntry} (he : e ∈ d.dirents) : Edit d (dirnodeDelDirentry d e)
  | addSymlink (d : Dirnode) (uuid : Uuid) (target : Bytes) :
      Edit d (dirnodeAddSymlink d uuid target)
  | removeSymlink (d : Dirnode) (uuid : Uuid) : Edit d (removeSymlink d uuid).1
  | attributes (d : Dirnode) (t : AttributeTable) : Edit d { d with attributeTable := t }

/-- Any number of edits, of which at most `n` add an entry. -/
inductive Dirnode.Edits : Nat → Dirnode → Dirnode → Prop where
  | refl (n : Nat) (d : Dirnode) : Edits n d d
  | edit {n : Nat} {d d' d'' : Dirnode} (h : Edits n d d') (hedit : d'.Edit d'') : Edits n d d''
  | add {n : Nat} {d d' : Dirnode} {e : DirEntry} (h : Edits n d d') (he : e.WF)
      (hname : d'.lookup e.name = none) (fresh : Uuid) :
      Edits (n + 1) d (dirnodeAddDirentry d' e fresh)

variable {n m : Nat} {d d' : Dirnode}

theorem Dirnode.Edit.edits (h : d.Edit d') (n : Nat) : Edits n d d' := .edit (.refl n d) h

theorem Dirnode.Edits.trans {d'' : Dirnode} (h : Edits n d d') (h' : Edits m d' d'') :
    Edits (n + m) d d'' := by
  induction h' with
  | refl m d' =>
    clear *- h
    induction h with
    | refl n d => exact .refl _ d
    | edit _ hedit ih => exact ih.edit hedit
    | add _ he hname fresh ih => exact Nat.add_right_comm .. ▸ ih.add he hname fresh
  | edit _ hedit ih => exact (ih h).edit hedit
  | add _ he hname fresh ih => exact (ih h).add he hname fresh

/-! ## The calls are edits -/

theorem dirnodeAdd_edits (h : d.Coherent) (name : Name) (type : DirentType) (uuid fresh : Uuid) :
    Dirnode.Edits 1 d (dirnodeAdd d name type uuid fresh).1 := by
  rw [dirnodeAdd_eq h]
  split
  · exact (Dirnode.Edit.look d name).edits 1
  next hfree =>
    exact .add (.refl 0 d) (newDirEntry_wf ..) (by simpa [newDirEntry] using hfree) fresh

theorem dirnodeAddLink_edits (h : d.Coherent) (name : Name) (target : Bytes) (uuid fresh : Uuid) :
    Dirnode.Edits 1 d (dirnodeAddLink d name target uuid fresh).1 := by
  have hadd := dirnodeAdd_edits h name .lnk uuid fresh
  unfold dirnodeAddLink
  generalize dirnodeAdd d name .lnk uuid fresh = r at hadd
  obtain ⟨d', ok⟩ := r
  cases ok with
  | false => exact hadd
  | true => exact hadd.edit (.addSymlink d' uuid target)

/-- What a lookup returns is an entry, also when it relies on its memory. -/
theorem mem_dirents_of_findByName {name : Name} (h : findByName d name = (d', some e)) :
    e ∈ d'.dirents := by
  unfold findByName at h
  split at h
  · simp at h
  · cases hfind : d.lookup name with
    | none => simp [hfind] at h
    | some e' =>
      obtain ⟨rfl, rfl⟩ : { d with lastFailedLookup := none } = d' ∧ e' = e := by
        simpa [hfind] using h
      exact (Dirnode.mem_of_lookup hfind).1

theorem dirnodeRemove_edits (d : Dirnode) (name : Name) (type : Option DirentType)
    (uuid : Uuid) : Dirnode.Edits 0 d (dirnodeRemove d name type uuid).1 := by
  have hlook := (Dirnode.Edit.look d name).edits 0
  have hmem := @mem_dirents_of_findByName d
  unfold dirnodeRemove
  cases hfound : findByName d name with
  | mk d' found =>
    rw [hfound] at hlook
    cases found with
    | none =>
      dsimp only
      split
      · exact hlook.edit (.removeSymlink d' uuid)
      · exact hlook
    | some e =>
      have hdel := hlook.edit (.del (hmem hfound))
      dsimp only
      split
      · exact hdel.edit (.removeSymlink _ e.linkUuid)
      · exact hdel

theorem clobberOverwritten_edits (d : Dirnode) (name : Name) :
    Dirnode.Edits 0 d (clobberOverwritten d (d.lookup name)) := by
  cases hfind : d.lookup name with
  | none => exact .refl 0 d
  | some e => exact .edit (.refl 0 d) (.del (Dirnode.mem_of_lookup hfind).1)

theorem dirnodeRenameWithin_edits (h : d.Coherent) (oldname newname : Name) (fresh : Uuid) :
    Dirnode.Edits 1 d (dirnodeRenameWithin d oldname newname fresh).1 := by
  rw [dirnodeRenameWithin_eq h]
  cases hfind : d.lookup oldname with
  | none => exact (Dirnode.Edit.look d oldname).edits 1
  | some e =>
    dsimp only
    split
    · exact (Dirnode.Edit.look d oldname).edits 1
    next hne =>
      obtain ⟨hmem, hfree⟩ := rename_ready h hfind hne
      exact ((clobberOverwritten_edits d newname).edit (.del hmem)).add
        (renameDirEntry_wf e newname) hfree fresh

theorem moveSymlink_edits {src src' dst dst' : Dirnode} (hsrc : Dirnode.Edits n src src')
    (hdst : Dirnode.Edits m dst dst') (uuid : Uuid) :
    Dirnode.Edits n src (moveSymlink src' dst' uuid).1 ∧
      Dirnode.Edits m dst (moveSymlink src' dst' uuid).2 := by
  have hremove := hsrc.edit (.removeSymlink src' uuid)
  unfold moveSymlink
  generalize removeSymlink src' uuid = r at hremove
  obtain ⟨src'', target⟩ := r
  cases target with
  | none => exact ⟨hremove, hdst⟩
  | some target => exact ⟨hremove, hdst.edit (.addSymlink dst' uuid target)⟩

theorem dirnodeRenameAcross_edits {src dst : Dirnode} (hsrc : src.Coherent)
    (hdst : dst.Coherent) (oldname newname : Name) (fresh : Uuid) :
    Dirnode.Edits 0 src (dirnodeRenameAcross src dst oldname newname fresh).1 ∧
      Dirnode.Edits 1 dst (dirnodeRenameAcross src dst oldname newname fresh).2.1 := by
  rw [dirnodeRenameAcross_eq hsrc hdst]
  cases hfind : src.lookup oldname with
  | none => exact ⟨(Dirnode.Edit.look src oldname).edits 0, .refl 1 dst⟩
  | some e =>
    have hfree : (clobberOverwritten dst (dst.lookup newname)).lookup newname = none := by
      rw [lookup_clobberOverwritten hdst, if_pos rfl]
    exact moveSymlink_edits (.edit (.refl 0 src) (.del (Dirnode.mem_of_lookup hfind).1))
      ((clobberOverwritten_edits dst newname).add (renameDirEntry_wf e newname) hfree fresh) _

/-! ## Edits keep the parts in agreement -/

theorem Dirnode.Coherent.edit (h : d.Coherent) (hedit : d.Edit d') : d'.Coherent := by
  cases hedit with
  | look name => exact findByName_coherent h name
  | del he => exact dirnodeDelDirentry_coherent h he
  | addSymlink uuid target =>
    exact { h with lastFailedLookup := by simp [dirnodeAddSymlink] }
  | removeSymlink uuid =>
    unfold Nexus.removeSymlink
    cases findSymlink d uuid with
    | none => exact h
    | some l => exact { h with }
  | attributes t => exact { h with }

theorem Dirnode.Coherent.edits (h : d.Coherent) (hedits : Edits n d d') : d'.Coherent := by
  induction hedits with
  | refl => exact h
  | edit _ hedit ih => exact (ih h).edit hedit
  | add _ he hname fresh ih => exact dirnodeAddDirentry_coherent (ih h) he hname fresh

/-! ## Edits leave a bucket alone or mark it -/

/-- A bucket is as it was, at its place, or it is marked dirty. -/
def Dirnode.MarksFrom (d d' : Dirnode) : Prop :=
  ∀ (k : Nat) (b : Bucket), d'.bucketList[k]? = some b →
    d.bucketList[k]? = some b ∨ b.isDirty = true

theorem Dirnode.MarksFrom.of_eq (h : d'.bucketList = d.bucketList) :
    d.MarksFrom d' := by
  intro k b hb
  rw [h] at hb
  exact .inl hb

theorem Dirnode.MarksFrom.trans {a b c : Dirnode} (hab : a.MarksFrom b) (hbc : b.MarksFrom c) :
    a.MarksFrom c := by
  intro k x hx
  rcases hbc k x hx with hx | hx
  · exact hab k x hx
  · exact .inr hx

variable {bs : List Bucket}

theorem getElem?_addToBucket {k : Nat} {b : Bucket} (h : (addToBucket e bs)[k]? = some b) :
    bs[k]? = some b ∨ b.isDirty = true := by
  induction bs generalizing k with
  | nil => simp [addToBucket] at h
  | cons c bs ih =>
    unfold addToBucket at h
    split at h <;> cases k <;> grind [bucketAddDirentry]

theorem getElem?_delFromBucket {k : Nat} {b : Bucket} (h : (delFromBucket e bs)[k]? = some b) :
    bs[k]? = some b ∨ b.isDirty = true := by
  induction bs generalizing k with
  | nil => simp [delFromBucket] at h
  | cons c bs ih =>
    unfold delFromBucket at h
    split at h <;> cases k <;> grind [bucketDelDirentry]

theorem addToBucket_of_full (e : DirEntry) (h : ∀ b ∈ bs, ¬ b.numItems < bucketCapacity)
    (c : Bucket) (hc : c.numItems < bucketCapacity) :
    addToBucket e (bs ++ [c]) = bs ++ [bucketAddDirentry c e] := by
  induction bs with
  | nil => simp [addToBucket, hc]
  | cons b bs ih =>
    have hb := h b List.mem_cons_self
    have hbs := ih fun x hx => h x (List.mem_cons_of_mem b hx)
    simp [addToBucket, hb, hbs]

theorem dirnodeAddDirentry_marksFrom (d : Dirnode) (e : DirEntry) (fresh : Uuid) :
    d.MarksFrom (dirnodeAddDirentry d e fresh) := by
  intro k b hb
  unfold dirnodeAddDirentry getAvailableBucket at hb
  split at hb
  · exact getElem?_addToBucket hb
  next hany =>
    -- all buckets are full, so the entry goes into the new one
    have hfull : ∀ c ∈ d.bucketList, ¬ c.numItems < bucketCapacity := by
      intro c hc hlt
      exact hany (List.any_eq_true.mpr ⟨c, hc, by simpa using hlt⟩)
    have hempty : (bucketCreate fresh).numItems < bucketCapacity := by
      show 0 < bucketCapacity
      decide
    dsimp only at hb
    rw [addToBucket_of_full e hfull _ hempty] at hb
    rcases lt_or_ge k d.bucketList.length with hk | hk
    · rw [List.getElem?_append_left hk] at hb
      exact .inl hb
    · rw [List.getElem?_append_right hk] at hb
      have hnew := List.mem_singleton.mp (List.mem_of_getElem? hb)
      rw [hnew]
      exact .inr rfl

theorem Dirnode.Edit.marksFrom (h : d.Edit d') : d.MarksFrom d' := by
  cases h with
  | look name =>
    obtain ⟨last, hframe⟩ := findByName_frame d name
    exact .of_eq (by rw [hframe])
  | del he => exact fun _ _ => getElem?_delFromBucket
  | addSymlink uuid target => exact .of_eq rfl
  | removeSymlink uuid =>
    unfold Nexus.removeSymlink
    cases findSymlink d uuid <;> exact .of_eq rfl
  | attributes t => exact .of_eq rfl

theorem Dirnode.Edits.marksFrom (h : Edits n d d') : d.MarksFrom d' := by
  induction h with
  | refl => exact .of_eq rfl
  | edit _ hedit ih => exact ih.trans hedit.marksFrom
  | add _ _ _ fresh ih => exact ih.trans (dirnodeAddDirentry_marksFrom _ _ fresh)

/-! ## At most one bucket more for each entry added -/

theorem findByName_bucketCount (d : Dirnode) (name : Name) :
    (findByName d name).1.bucketCount = d.bucketCount := by
  obtain ⟨last, hframe⟩ := findByName_frame d name
  rw [hframe]

theorem Dirnode.Edit.bucketCount (h : d.Edit d') : d'.bucketCount = d.bucketCount := by
  cases h with
  | look name => exact findByName_bucketCount d name
  | removeSymlink uuid =>
    unfold Nexus.removeSymlink
    cases findSymlink d uuid <;> rfl
  | _ => rfl

theorem Dirnode.Edits.bucketCount (h : Edits n d d') : d'.bucketCount ≤ d.bucketCount + n := by
  induction h with
  | refl => exact Nat.le_add_right _ _
  | edit _ hedit ih => rwa [hedit.bucketCount]
  | @add n d d' e _ _ _ fresh ih =>
    have hadd : (dirnodeAddDirentry d' e fresh).bucketCount ≤ d'.bucketCount + 1 := by
      unfold dirnodeAddDirentry getAvailableBucket
      split
      · exact Nat.le_succ _
      · exact Nat.le_refl _
    omega

end Nexus
