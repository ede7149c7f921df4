import Nexus.Fs.State

/-!
# The file-system ecalls

The calls of `dirs.c` and `files.c` that change a volume.  Each takes the
outcome of what it asks the outside and returns the state and its result.
-/

namespace Nexus

namespace Fs

/-- `ecall_fs_create`. -/
def ecallFsCreate (o : Outcome) (s : Fs) (dir : Uuid) (name : Name) (type : DirentType) :
    Fs × Result Uuid :=
  match s.lockDirnode o o.getFirst dir with
  | (s, none) => (s, .error)
  | (s, some d) =>
    if !o.granted then (s, .error)
    else if !o.bufferNew then (s, .error)
    else
      let s := s.withObject o.entryUuid type
      match dirnodeAdd d name type o.entryUuid o.bucketUuid with
      | (d, false) => (s.setDirnode dir d, .error)
      | (d, true) =>
        match (s.modifyDirnode dir d).storeDirnode o dir with
        | (s, true) => (s, .ok o.entryUuid)
        | (s, false) => (s, .error)

/-- `__remove_filenode`: whether it succeeds, and `should_remove`. -/
def removeFilenode (o : Outcome) (s : Fs) (uuid : Uuid) : Fs × Bool × Bool :=
  match s.acquireTable o with
  | (s, none) => (s, false, true)
  | (s, some t) =>
    if !t.containsUuid uuid then (s.delete o uuid, true, true)
    else
      let (t, linkCount) := t.decrUuid uuid
      let s := s.modifyTable t
      if linkCount = 0 then
        let (s, ok) := (s.delete o uuid).flushTable o
        (s, ok, true)
      else
        let (s, ok) := s.flushTable o
        (s, ok, false)

/-- What `ecall_fs_remove` gives out: the removed entry and `should_remove`. -/
structure Removed where
  uuid : Uuid
  type : DirentType
  shouldRemove : Bool

/-- The object of the entry that `__nxs_fs_remove` takes out. -/
def removeObject (o : Outcome) (s : Fs) (e : DirEntry) : Fs × Bool × Bool :=
  match e.type with
  | .reg => removeFilenode o s e.linkUuid
  | .dir => (s.delete o e.linkUuid, true, true)
  | .lnk => (s, true, true)

/-- `ecall_fs_remove`.  The entry leaves the directory only after its object is
dealt with; a symlink record stays behind. -/
def ecallFsRemove (o : Outcome) (s : Fs) (dir : Uuid) (name : Name) : Fs × Result Removed :=
  match s.lockDirnode o o.getFirst dir with
  | (s, none) => (s, .error)
  | (s, some d) =>
    if !o.granted then (s, .error)
    else
      match findByName d name with
      | (d, none) => (s.setDirnode dir d, .error)
      | (d, some e) =>
        match removeObject o (s.setDirnode dir d) e with
        | (s, false, _) => (s, .error)
        | (s, true, shouldRemove) =>
          match (s.modifyDirnode dir (dirnodeDelDirentry d e)).storeDirnode o dir with
          | (s, true) => (s, .ok { uuid := e.linkUuid, type := e.type, shouldRemove })
          | (s, false) => (s, .error)

/-- `ecall_fs_symlink`. -/
def ecallFsSymlink (o : Outcome) (s : Fs) (dir : Uuid) (name : Name) (target : Bytes) :
    Fs × Result Uuid :=
  match s.lockDirnode o o.getFirst dir with
  | (s, none) => (s, .error)
  | (s, some d) =>
    if !o.bufferNew then (s, .error)
    else
      let s := s.withObject o.entryUuid .lnk
      match dirnodeAddLink d name target o.entryUuid o.bucketUuid with
      | (d, false) => (s.setDirnode dir d, .error)
      | (d, true) =>
        match (s.modifyDirnode dir d).storeDirnode o dir with
        | (s, true) => (s, .ok o.entryUuid)
        | (s, false) => (s, .error)

/-- The hardlink table in `__nxs_fs_hardlink`. -/
def countLink (o : Outcome) (s : Fs) (uuid : Uuid) : Fs × Bool :=
  match s.acquireTable o with
  | (s, none) => (s, false)
  | (s, some t) => (s.modifyTable (t.incrUuid uuid)).flushTable o

/-- `__nxs_fs_hardlink`: the link is counted before its entry is added. -/
def nxsFsHardlink (o : Outcome) (s : Fs) (linkDir : Uuid) (linkName : Name) (targetDir : Uuid)
    (target : Dirnode) (targetName : Name) : Fs × Option Uuid :=
  match findByName target targetName with
  | (target, none) => (s.setDirnode targetDir target, none)
  | (target, some e) =>
    let s := s.setDirnode targetDir target
    if e.type ≠ .reg then (s, none)
    else
      match countLink o s e.linkUuid with
      | (s, false) => (s, none)
      | (s, true) =>
        match s.dirnodes linkDir with
        | none => (s, none)
        | some link =>
          match dirnodeAdd link.object linkName .reg e.linkUuid o.bucketUuid with
          | (link, false) => (s.setDirnode linkDir link, none)
          | (link, true) => (s.modifyDirnode linkDir link, some e.linkUuid)

/-- `ecall_fs_hardlink`.  The new entry goes into `linkDir`; what is stored at
the end is `targetDir`. -/
def ecallFsHardlink (o : Outcome) (s : Fs) (linkDir : Uuid) (linkName : Name)
    (targetDir : Uuid) (targetName : Name) : Fs × Result Uuid :=
  match s.lockDirnode o o.getFirst targetDir with
  | (s, none) => (s, .error)
  | (s, some target) =>
    match if linkDir = targetDir then (s, some target) else s.getDirnode o o.getSecond linkDir with
    | (s, none) => (s, .error)
    | (s, some _) =>
      match nxsFsHardlink o s linkDir linkName targetDir target targetName with
      | (s, none) => (s, .error)
      | (s, some uuid) =>
        match s.storeDirnode o targetDir with
        | (s, true) => (s, .ok uuid)
        | (s, false) => (s, .error)

/-- `ecall_fs_rename` inside one directory. -/
def renameWithin (o : Outcome) (s : Fs) (dir : Uuid) (oldname newname : Name) :
    Fs × Result Uuid :=
  match s.lockDirnode o o.getFirst dir with
  | (s, none) => (s, .error)
  | (s, some d) =>
    match dirnodeRenameWithin d oldname newname o.bucketUuid with
    | (d, .notFound) => (s.setDirnode dir d, .error)
    | (d, .undefined) => (s.setDirnode dir d, .undefined)
    | (d, .renamed moved _) =>
      match (s.modifyDirnode dir d).storeDirnode o dir with
      | (s, true) => (s, .ok moved.linkUuid)
      | (s, false) => (s, .error)

/-- `ecall_fs_rename` between two directories: the source is stored first. -/
def renameAcross (o : Outcome) (s : Fs) (fromDir : Uuid) (oldname : Name) (toDir : Uuid)
    (newname : Name) : Fs × Result Uuid :=
  match s.lockDirnode o o.getFirst fromDir with
  | (s, none) =>
    -- the target is got all the same, and not put
    match s.lockDirnode o o.getSecond toDir with
    | (s, none) => (s, .error)
    | (s, some _) => (s.leave (.dir toDir), .error)
  | (s, some src) =>
    match s.lockDirnode o o.getSecond toDir with
    | (s, none) => (s, .error)
    | (s, some dst) =>
      match dirnodeRenameAcross src dst oldname newname o.bucketUuid with
      | (src, dst, .renamed moved _) =>
        match ((s.modifyDirnode fromDir src).modifyDirnode toDir dst).storeDirnode o fromDir with
        | (s, false) => (s, .error)
        | (s, true) =>
          match s.storeDirnode o toDir with
          | (s, false) => (s, .error)
          | (s, true) => (s, .ok moved.linkUuid)
      | (src, dst, _) => ((s.setDirnode fromDir src).setDirnode toDir dst, .error)

/-- `ecall_fs_rename`.  The type that decides whether the overwritten object is
removed is never assigned, so it never is. -/
def ecallFsRename (o : Outcome) (s : Fs) (fromDir : Uuid) (oldname : Name) (toDir : Uuid)
    (newname : Name) : Fs × Result Uuid :=
  if fromDir = toDir then renameWithin o s fromDir oldname newname
  else renameAcross o s fromDir oldname toDir newname

/-- `ecall_fs_truncate`.  A denied access releases the lock and goes on. -/
def ecallFsTruncate (o : Outcome) (s : Fs) (file : Uuid) (size : Nat) : Fs × Result Filenode :=
  match s.getFilenode o file with
  | (s, none) => (s, .error)
  | (s, some f) =>
    let s := if o.granted then s else s.putFilenode o file
    let f := f.setFilesize size o.chunk
    match (s.modifyFilenode file f).storeFilenode o file with
    | (s, false) => (s.putFilenode o file, .error)
    | (s, true) => (s, .ok f)

/-- `ecall_fs_file_encrypt_start`. -/
def ecallFsFileEncryptStart (o : Outcome) (s : Fs) (file : Uuid) (size : Nat) :
    Fs × Result Filenode :=
  match s.getFilenode o file with
  | (s, none) => (s, .error)
  | (s, some f) =>
    if !o.granted then (s.putFilenode o file, .error)
    else
      let f := f.setFilesize size o.chunk
      let s := s.modifyFilenode file f
      if !o.fileCryptoNew then (s.putFilenode o file, .error) else (s, .ok f)

/-- What was made for a regular file. -/
def isFile (s : Fs) (uuid : Uuid) : Bool :=
  match s.objects uuid with
  | some (.filenode _) | some (.empty .reg) => true
  | _ => false

/-- What was made for a directory. -/
def isDirectory (s : Fs) (uuid : Uuid) : Bool :=
  match s.objects uuid with
  | some (.dirnode _) | some (.empty .dir) => true
  | _ => false

/-- Copies leave the enclave without being stored: `dentry_delete`, which
renaming and removing also do for the names they take away, and
`nexus_vfs_deinit`. -/
def dropCopies (s : Fs) (dirnodes filenodes : Uuid → Bool) (table : Bool) : Fs :=
  { s with
    dirnodes := fun uuid => if dirnodes uuid then none else s.dirnodes uuid
    filenodes := fun uuid => if filenodes uuid then none else s.filenodes uuid
    table := if table then none else s.table }

/-- `nx_create_volume`, for the objects of the model: the root directory and the
hardlink table are stored, and nothing stays in memory. -/
def nxCreateVolume (o : StoreOutcome) (rootUuid bucket0 : Uuid) : Option Fs :=
  match dirnodeStore o (dirnodeCreate rootUuid rootUuid bucket0)
    { main := [], buckets := fun _ => none } with
  | (_, _, false) => none
  | (_, stored, true) =>
    some {
      rootUuid
      objects := Function.update (fun _ => none) rootUuid (some (.dirnode stored))
      storedTable := HardlinkTable.create
      disk := Function.update (fun _ => none) rootUuid (some (.dirnode stored))
      diskTable := HardlinkTable.create
      leftover := fun _ => false
      dirnodes := fun _ => none
      filenodes := fun _ => none
      table := none
      fileBuffers := fun _ => { writers := 0, lockMode := false, pending := none } }

end Fs

/-- The calls that change a volume. -/
inductive Call where
  | create (dir : Uuid) (name : Name) (type : DirentType)
  | remove (dir : Uuid) (name : Name)
  | symlink (dir : Uuid) (name : Name) (target : Bytes)
  | hardlink (linkDir : Uuid) (linkName : Name) (targetDir : Uuid) (targetName : Name)
  | rename (fromDir : Uuid) (oldname : Name) (toDir : Uuid) (newname : Name)
  | truncate (file : Uuid) (size : Nat)
  | encryptStart (file : Uuid) (size : Nat)

namespace Call

/-- The result without its value. -/
def report {α : Type} (r : Fs × Result α) : Fs × Result Unit :=
  (r.1, match r.2 with
    | .ok _ => .ok ()
    | .error => .error
    | .undefined => .undefined)

/-- The call uses a file as a directory or a directory as a file.  `nexus_vfs_get`
does not look at the type of what it gets, and the calls take their object out of
the union in `struct nexus_metadata`.  Those that check the access do so first. -/
def confuses (o : Outcome) (s : Fs) : Call → Bool
  | create dir _ _ | remove dir _ => o.getFirst && o.granted && s.isFile dir
  | symlink dir _ _ => o.getFirst && s.isFile dir
  | hardlink dir _ dir' _ | rename dir' _ dir _ =>
    o.getFirst && (dir == dir' || o.getSecond) && (s.isFile dir || s.isFile dir')
  | truncate file _ => o.getFirst && s.isDirectory file
  | encryptStart file _ => o.getFirst && o.granted && s.isDirectory file

/-- The call on objects of the types it expects. -/
def perform (o : Outcome) (s : Fs) : Call → Fs × Result Unit
  | create dir name type => report (s.ecallFsCreate o dir name type)
  | remove dir name => report (s.ecallFsRemove o dir name)
  | symlink dir name target => report (s.ecallFsSymlink o dir name target)
  | hardlink linkDir linkName targetDir targetName =>
    report (s.ecallFsHardlink o linkDir linkName targetDir targetName)
  | rename fromDir oldname toDir newname =>
    report (s.ecallFsRename o fromDir oldname toDir newname)
  | truncate file size => report (s.ecallFsTruncate o file size)
  | encryptStart file size => report (s.ecallFsFileEncryptStart o file size)

/-- The state and the result of a call. -/
def run (o : Outcome) (s : Fs) (c : Call) : Fs × Result Unit :=
  if c.confuses o s then (s, .undefined) else c.perform o s

theorem run_cases (o : Outcome) (s : Fs) (c : Call) :
    c.run o s = (s, .undefined) ∨ c.run o s = c.perform o s := by
  unfold run
  split
  · exact .inl rfl
  · exact .inr rfl

theorem run_of_isOk {o : Outcome} {s : Fs} {c : Call} (h : (c.run o s).2.isOk = true) :
    c.run o s = c.perform o s := by
  rcases c.run_cases o s with heq | heq
  · rw [heq] at h
    contradiction
  · exact heq

end Call

end Nexus
