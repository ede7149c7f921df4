import Nexus.Dirnode.Reachable
import Nexus.Lib.Runs
import Mathlib.Data.List.Flatten

/-!
# Directories as finite maps

The dirnodes that a volume keeps in memory, and runs of the calls of `dirnode.c`
on them: entries are added, removed, looked up and moved within a directory and
between two, and directories are made and stored.  Along every run each dirnode is
a finite map from names to entries, split over buckets of at most 128 entries,
and a bucket that differs from what was last stored is marked dirty.

A run keeps one history variable, which no call reads: the buckets of each
directory as its last store, or its creation, left them.
-/

namespace Nexus

open Codec Runs List

/-- `dirnode_find_by_name`: the type and the uuid of the entry. -/
def dirnodeFindByName (d : Dirnode) (name : Name) : Dirnode × Option (DirentType × Uuid) :=
  let r := findByName d name
  (r.1, r.2.map fun e => (e.type, e.linkUuid))

/-- The directories of a volume. -/
structure Directories (ι : Type) where
  node : ι → Dirnode
  saved : ι → List Bucket

/-- The calls on the directories.  A store is one whose calls all succeed. -/
inductive DirectoryCall (ι : Type) where
  | create (i : ι) (rootUuid myUuid bucket0 : Uuid)
  | add (i : ι) (name : Name) (type : DirentType) (uuid fresh : Uuid)
  | addLink (i : ι) (name : Name) (target : Bytes) (uuid fresh : Uuid)
  | remove (i : ι) (name : Name) (type : Option DirentType) (uuid : Uuid)
  | findByName (i : ι) (name : Name)
  | rename (src : ι) (oldname : Name) (dst : ι) (newname : Name) (fresh : Uuid)
  | store (i : ι) (o : { o : StoreOutcome // o.Succeeds }) (stored : StoredDirnode)

/-- A name is renamed to itself in its directory. -/
def DirectoryCall.IsSelfRename {ι : Type} : DirectoryCall ι → Prop
  | rename src oldname dst newname _ => src = dst ∧ oldname = newname
  | _ => False

namespace Directories

variable {ι : Type} [DecidableEq ι]

/-- All directories are new. -/
def create (rootUuid : Uuid) (myUuid bucket0 : ι → Uuid) : Directories ι where
  node := fun i => dirnodeCreate rootUuid (myUuid i) (bucket0 i)
  saved := fun i => (dirnodeCreate rootUuid (myUuid i) (bucket0 i)).bucketList

/-- The directories with one dirnode changed. -/
def set (s : Directories ι) (i : ι) (d : Dirnode) : Directories ι :=
  { s with node := Function.update s.node i d }

/-- The directories after a dirnode was made or stored. -/
def save (s : Directories ι) (i : ι) (d : Dirnode) : Directories ι where
  node := Function.update s.node i d
  saved := Function.update s.saved i d.bucketList

/-- `dirnode_rename`: the two dirnodes may be one. -/
def rename (s : Directories ι) (src : ι) (oldname : Name) (dst : ι) (newname : Name)
    (fresh : Uuid) : Directories ι × RenameResult :=
  if src = dst then
    let r := dirnodeRenameWithin (s.node src) oldname newname fresh
    (s.set src r.1, r.2)
  else
    let r := dirnodeRenameAcross (s.node src) (s.node dst) oldname newname fresh
    ((s.set src r.1).set dst r.2.1, r.2.2)

/-- One call; `none` when it uses an entry that it has freed. -/
def step (s : Directories ι) : DirectoryCall ι → Option (Directories ι)
  | .create i rootUuid myUuid bucket0 => some (s.save i (dirnodeCreate rootUuid myUuid bucket0))
  | .add i name type uuid fresh => some (s.set i (dirnodeAdd (s.node i) name type uuid fresh).1)
  | .addLink i name target uuid fresh =>
    some (s.set i (dirnodeAddLink (s.node i) name target uuid fresh).1)
  | .remove i name type uuid => some (s.set i (dirnodeRemove (s.node i) name type uuid).1)
  | .findByName i name => some (s.set i (dirnodeFindByName (s.node i) name).1)
  | .rename src oldname dst newname fresh =>
    let r := s.rename src oldname dst newname fresh
    if r.2 = .undefined then none else some r.1
  | .store i o stored => some (s.save i (dirnodeStore o (s.node i) stored).1)

/-- A run goes on from a defined state only. -/
def runStep (s : Option (Directories ι)) (call : DirectoryCall ι) : Option (Directories ι) :=
  s.bind fun s => s.step call

/-! ## What a call does to one directory -/

/-- A dirnode and its buckets as last stored, before and after a call: the call edits
the dirnode, or it leaves it new or stored. -/
inductive Moves : Dirnode × List Bucket → Dirnode × List Bucket → Prop where
  | edits {n : Nat} {d d' : Dirnode} (h : Dirnode.Edits n d d') (saved : List Bucket) :
      Moves (d, saved) (d', saved)
  | save {d d' : Dirnode} (h : d'.Coherent) (saved : List Bucket) :
      Moves (d, saved) (d', d'.bucketList)

omit [DecidableEq ι] in
/-- One directory, with its history. -/
def view (s : Directories ι) (i : ι) : Dirnode × List Bucket := (s.node i, s.saved i)

variable {d : Dirnode}

theorem moves_set {s : Directories ι} {i : ι} {n : Nat}
    (h : Dirnode.Edits n (s.node i) d) (j : ι) :
    Moves (s.view j) ((s.set i d).view j) := by
  by_cases hj : j = i
  · subst hj
    simpa [view, set] using Moves.edits h (s.saved j)
  · simpa [view, set, hj] using Moves.edits (.refl 0 (s.node j)) (s.saved j)

theorem moves_save (s : Directories ι) (i : ι) (h : d.Coherent) (j : ι) :
    Moves (s.view j) ((s.save i d).view j) := by
  by_cases hj : j = i
  · subst hj
    simpa [view, save] using Moves.save h (s.saved j)
  · simpa [view, save, hj] using Moves.edits (.refl 0 (s.node j)) (s.saved j)

omit [DecidableEq ι] in
theorem Moves.coherent {v v' : Dirnode × List Bucket} (hmove : Moves v v') (h : v.1.Coherent) :
    v'.1.Coherent := by
  cases hmove with
  | edits hedits saved => exact h.edits hedits
  | save hd saved => exact hd

variable {s : Directories ι}

theorem rename_moves (hs : ∀ i, (s.node i).Coherent) (src : ι) (oldname : Name) (dst : ι)
    (newname : Name) (fresh : Uuid) (i : ι) :
    Moves (s.view i) ((s.rename src oldname dst newname fresh).1.view i) := by
  unfold rename
  split
  · exact moves_set (dirnodeRenameWithin_edits (hs src) oldname newname fresh) i
  next hne =>
    have hedits := dirnodeRenameAcross_edits (hs src) (hs dst) oldname newname fresh
    by_cases hdst : i = dst
    · subst hdst
      simpa [view, set] using Moves.edits hedits.2 (s.saved i)
    · have hmove := moves_set hedits.1 i
      simpa [view, set, hdst] using hmove

theorem rename_defined (hs : ∀ i, (s.node i).Coherent) {src dst : ι} {oldname newname : Name}
    (hcall : ¬ (src = dst ∧ oldname = newname)) (fresh : Uuid) :
    (s.rename src oldname dst newname fresh).2 ≠ .undefined := by
  unfold rename
  split
  next hsame =>
    have hne : oldname ≠ newname := fun hname => hcall ⟨hsame, hname⟩
    rw [dirnodeRenameWithin_eq (hs src)]
    cases (s.node src).lookup oldname with
    | none => simp
    | some e => simp [hne]
  · rw [dirnodeRenameAcross_eq (hs src) (hs dst)]
    cases (s.node src).lookup oldname <;> simp

theorem step_moves (hs : ∀ i, (s.node i).Coherent) {call : DirectoryCall ι}
    (hcall : ¬ call.IsSelfRename) :
    ∃ t, s.step call = some t ∧ ∀ i, Moves (s.view i) (t.view i) := by
  cases call with
  | create i rootUuid myUuid bucket0 =>
    exact ⟨_, rfl, moves_save s i (dirnodeCreate_coherent rootUuid myUuid bucket0)⟩
  | add i name type uuid fresh =>
    exact ⟨_, rfl, moves_set (dirnodeAdd_edits (hs i) name type uuid fresh)⟩
  | addLink i name target uuid fresh =>
    exact ⟨_, rfl, moves_set (dirnodeAddLink_edits (hs i) name target uuid fresh)⟩
  | remove i name type uuid => exact ⟨_, rfl, moves_set (dirnodeRemove_edits _ name type uuid)⟩
  | findByName i name => exact ⟨_, rfl, moves_set ((Dirnode.Edit.look _ name).edits 0)⟩
  | rename src oldname dst newname fresh =>
    refine ⟨(s.rename src oldname dst newname fresh).1, ?_, rename_moves hs src oldname dst newname
      fresh⟩
    exact if_neg (rename_defined hs hcall fresh)
  | store i o stored => exact ⟨_, rfl, moves_save s i (dirnodeStore_coherent (hs i) o stored)⟩

/-! ## The invariant of a run -/

/-- The entries of a bucket when its directory was last stored; a bucket that is newer
had none. -/
def savedEntries (saved : List Bucket) (k : Nat) : List DirEntry :=
  ((saved[k]?).map Bucket.dirEntries).getD []

/-- A coherent dirnode, whose buckets without a mark hold what was stored. -/
structure Tracked (d : Dirnode) (saved : List Bucket) : Prop where
  coherent : d.Coherent
  clean : ∀ (k : Nat) (b : Bucket), d.bucketList[k]? = some b → b.isDirty = false →
    b.dirEntries = savedEntries saved k

theorem Tracked.of_saved (h : d.Coherent) : Tracked d d.bucketList := by
  refine ⟨h, ?_⟩
  intro k b hb _
  simp [savedEntries, hb]

theorem Tracked.move {v v' : Dirnode × List Bucket} (h : Tracked v.1 v.2) (hmove : Moves v v') :
    Tracked v'.1 v'.2 := by
  refine ⟨hmove.coherent h.coherent, ?_⟩
  cases hmove with
  | edits hedits saved =>
    intro k b hb hclean
    rcases hedits.marksFrom k b hb with hold | hdirty
    · exact h.clean k b hold hclean
    · simp [hdirty] at hclean
  | save hd saved => exact (Tracked.of_saved hd).clean

/-! ## The finite map -/

/-- A dirnode is a finite map from names to entries, split into bounded buckets. -/
structure FiniteMap (d : Dirnode) (saved : List Bucket) : Prop where
  names : (d.dirents.map DirEntry.name).Nodup
  find : ∀ (name : Name) (found : DirentType × Uuid), (dirnodeFindByName d name).2 = some found ↔
    ∃ e ∈ d.dirents, e.name = name ∧ (e.type, e.linkUuid) = found
  oneBucket : ∀ e ∈ d.dirents, ∃! k : Nat, ∃ b : Bucket, d.bucketList[k]? = some b ∧ e ∈ b.dirEntries
  noOthers : ∀ b ∈ d.bucketList, b.dirEntries.Nodup ∧ ∀ e ∈ b.dirEntries, e ∈ d.dirents
  buckets : ∀ b ∈ d.bucketList, b.numItems = b.dirEntries.length ∧ b.numItems ≤ 128 ∧
    b.sizeBytes = (b.dirEntries.map DirEntry.recLen).sum
  dirEntryCount : d.dirEntryCount = (d.bucketList.map Bucket.numItems).sum
  dirEntryBuflen : d.dirEntryBuflen = (d.bucketList.map Bucket.sizeBytes).sum
  bucketCount : d.bucketCount = d.bucketList.length
  dirty : ∀ (k : Nat) (b : Bucket), d.bucketList[k]? = some b →
    b.dirEntries ≠ savedEntries saved k → b.isDirty = true

variable {bs : List Bucket}

theorem bucket_unique (h : (bucketEntries bs).Nodup) {e : DirEntry} {i j : Nat} {b c : Bucket}
    (hi : bs[i]? = some b) (hb : e ∈ b.dirEntries) (hj : bs[j]? = some c) (hc : e ∈ c.dirEntries) :
    i = j := by
  induction bs generalizing i j with
  | nil => simp at hi
  | cons x bs ih =>
    rw [bucketEntries_cons, nodup_append] at h
    obtain ⟨-, htail, hdisjoint⟩ := h
    have hlater {k : Nat} {y : Bucket} (hk : bs[k]? = some y) (hy : e ∈ y.dirEntries) :
        e ∉ x.dirEntries := by
      intro hx
      exact hdisjoint e hx e (mem_flatMap.mpr ⟨y, mem_of_getElem? hk, hy⟩) rfl
    cases i with
    | zero =>
      obtain rfl : x = b := by simpa using hi
      cases j with
      | zero => rfl
      | succ j => exact absurd hb (hlater (by simpa using hj) hc)
    | succ i =>
      cases j with
      | zero =>
        obtain rfl : x = c := by simpa using hj
        exact absurd hc (hlater (by simpa using hi) hb)
      | succ j => exact congrArg (· + 1) (ih htail (by simpa using hi) (by simpa using hj))

theorem length_bucketEntries (h : ∀ b ∈ bs, b.WF) :
    (bucketEntries bs).length = (bs.map Bucket.numItems).sum := by
  have hnum : bs.map Bucket.numItems = bs.map fun b => b.dirEntries.length :=
    map_congr_left fun b hb => (h b hb).numItems
  rw [hnum]
  exact length_flatMap

theorem recLenSum_bucketEntries (h : ∀ b ∈ bs, b.WF) :
    recLenSum (bucketEntries bs) = (bs.map Bucket.sizeBytes).sum := by
  induction bs with
  | nil => rfl
  | cons b bs ih =>
    rw [bucketEntries_cons, recLenSum_append, ih fun c hc => h c (mem_cons_of_mem b hc),
      ← (h b mem_cons_self).sizeBytes]
    rfl

theorem findByName_iff (h : d.Coherent) (name : Name) (found : DirentType × Uuid) :
    (dirnodeFindByName d name).2 = some found ↔
      ∃ e ∈ d.dirents, e.name = name ∧ (e.type, e.linkUuid) = found := by
  rw [dirnodeFindByName, findByName_result h, Option.map_eq_some_iff]
  constructor
  · rintro ⟨e, he, hfound⟩
    obtain ⟨hmem, hname⟩ := h.lookup_eq_some_iff.mp he
    exact ⟨e, hmem, hname, hfound⟩
  · rintro ⟨e, hmem, hname, hfound⟩
    exact ⟨e, h.lookup_eq_some_iff.mpr ⟨hmem, hname⟩, hfound⟩

theorem Tracked.finiteMap {saved : List Bucket} (h : Tracked d saved) :
    FiniteMap d saved := by
  have hc := h.coherent
  have hnodup : (bucketEntries d.bucketList).Nodup :=
    hc.direntsPerm.nodup_iff.mp (List.Nodup.of_map _ hc.names)
  refine ⟨hc.names, findByName_iff hc, ?_, ?_, ?_, ?_, ?_, hc.bucketCount, ?_⟩
  · intro e he
    obtain ⟨b, hb, heb⟩ := mem_flatMap.mp (hc.direntsPerm.mem_iff.mp he)
    obtain ⟨k, hk⟩ := mem_iff_getElem?.mp hb
    refine ⟨k, ⟨b, hk, heb⟩, ?_⟩
    rintro k' ⟨b', hk', heb'⟩
    exact bucket_unique hnodup hk' heb' hk heb
  · intro b hb
    refine ⟨(nodup_flatMap.mp hnodup).1 b hb, ?_⟩
    intro e he
    exact hc.direntsPerm.mem_iff.mpr (mem_flatMap.mpr ⟨b, hb, he⟩)
  · intro b hb
    exact ⟨(hc.buckets b hb).numItems, (hc.buckets b hb).capacity, (hc.buckets b hb).sizeBytes⟩
  · rw [hc.dirEntryCount, hc.direntsPerm.length_eq, length_bucketEntries hc.buckets]
  · rw [hc.dirEntryBuflen, recLenSum_perm hc.direntsPerm, recLenSum_bucketEntries hc.buckets]
  · intro k b hb hchanged
    cases hdirty : b.isDirty with
    | true => rfl
    | false => exact absurd (h.clean k b hb hdirty) hchanged

/-- Along every run that renames no name to itself in its directory, no call uses a
freed entry and every dirnode is a finite map split into bounded buckets. -/
theorem directories_finiteMap (rootUuid : Uuid) (myUuid bucket0 : ι → Uuid)
    (calls : List (DirectoryCall ι)) (hcalls : ∀ call ∈ calls, ¬ call.IsSelfRename) :
    Always runStep (fun s => ∃ t, s = some t ∧ ∀ i, FiniteMap (t.node i) (t.saved i))
      (some (create rootUuid myUuid bucket0)) calls := by
  have hmeets : Meets runStep (fun _ call => ¬ call.IsSelfRename)
      (some (create rootUuid myUuid bucket0)) calls := meets_of_forall (fun _ => hcalls)
  have htracked : Always runStep (fun s => ∃ t, s = some t ∧ ∀ i, Tracked (t.node i) (t.saved i))
      (some (create rootUuid myUuid bucket0)) calls := by
    refine always_of_meets ?_ ⟨_, rfl, ?_⟩ hmeets
    · rintro _ call ⟨s, rfl, hs⟩ hcall
      obtain ⟨t, ht, hmoves⟩ := step_moves (fun i => (hs i).coherent) hcall
      exact ⟨t, ht, fun i => (hs i).move (hmoves i)⟩
    · exact fun i => .of_saved (dirnodeCreate_coherent rootUuid (myUuid i) (bucket0 i))
  refine htracked.mono (P := fun s => ∃ t, s = some t ∧ ∀ i, Tracked (t.node i) (t.saved i)) ?_
  rintro s ⟨t, ht, hs⟩
  exact ⟨t, ht, fun i => (hs i).finiteMap⟩

/-- A file is made in one directory, moved to another under a name that was looked for
there, and stored. -/
theorem directories_finiteMap_moved :
    Always runStep (fun s => ∃ t, s = some t ∧ ∀ i, FiniteMap (t.node i) (t.saved i))
      (some (create 1 (fun i : Bool => if i then 2 else 3) fun _ => 4))
      [.add false linkName .reg 5 6, .findByName true linkName,
        .rename false linkName true linkName 7,
        .store true ⟨⟨some ⟨0, 0⟩, fun _ => true, fun _ => 0, fun _ => true, true⟩,
            ⟨rfl, fun _ => rfl, rfl⟩⟩
          ⟨[], fun _ => none⟩] :=
  directories_finiteMap _ _ _ _ (by simp [DirectoryCall.IsSelfRename])

end Directories

end Nexus
