import Mathlib.Logic.Function.Basic
import Nexus.Storage.MetadataLocks

/-!
# The locks that the ecalls take

The directory, user and ABAC ecalls, as far as they acquire and release metadata.
What a helper does to the contents of an object is left out; whether it succeeds
is an argument, and so is the result of every ocall.  An ecall that dereferences
`NULL` does not return.

The path walk of an ecall comes before it, as a sequence of `Visit`s.  The second
walk of `ecall_fs_hardlink` is part of the ecall, because it holds a lock then.
-/

namespace Nexus.Locking

/-- What can be locked.  The uuids of these objects are drawn separately. -/
inductive Lockable where
  | object (uuid : Uuid)
  | hardlinkTable
  | userTable
  | attributeSpace
  | policyStore
  | userProfile (uuid : Uuid)
  | auditLog (uuid : Uuid)
  /-- A bucket of a directory, other than the one in its main object. -/
  | bucket (uuid : Uuid)
  deriving DecidableEq, Repr

abbrev Locks := Lockable → ObjectLocks

/-- An ecall in progress; `none` is one that does not return. -/
abbrev LockM := StateT Locks Option

def onObject {α : Type} (x : Lockable) (f : ObjectLocks → ObjectLocks × α) : LockM α :=
  fun s => some ((f (s x)).2, Function.update s x (f (s x)).1)

def modifyObject (x : Lockable) (f : ObjectLocks → ObjectLocks) : LockM Unit :=
  onObject x fun c => (f c, ())

/-- `nexus_vfs_acquire_hardlink_table` and its siblings. -/
def acquire (x : Lockable) (flags : IoFlags) (o : RevalidateOutcome) : LockM Bool :=
  onObject x (·.acquire flags o)

/-- `nexus_metadata_store`. -/
def flush (x : Lockable) (o : PutOutcome) : LockM Bool := onObject x (·.store o)

/-- `nexus_metadata_unlock`. -/
def release (x : Lockable) (r : OcallResult) : LockM Unit := modifyObject x (·.unlock r)

/-- `__metadata_set_dirty`. -/
def markDirty (x : Lockable) : LockM Unit := modifyObject x (·.setDirty)

/-- `nexus_metadata_create` of a new uuid, `nexus_metadata_store` and
`nexus_metadata_free`.  A failed create does not return: `metadata_create_audit_log`
stores the `NULL` that it gets, and `abac_create_user_profile` frees it. -/
def createObject (x : Lockable) (lock : OcallResult) (put : PutOutcome) : LockM Bool := do
  -- a new uuid has no copy and no entry in the buffer layer
  if !(← onObject x (·.evict.create lock)) then failure
  let ok ← flush x put
  modifyObject x (·.free)
  return ok

/-! ## Stores of objects -/

/-- How `nexus_metadata_store` of an object ends: the buckets that `bucket_store` is
called for, which only a directory has, and the main object. -/
structure DirPut where
  buckets : List BucketPut
  main : PutOutcome
  deriving DecidableEq, Repr

/-- The loop of `__store_other_buckets` over the buckets that are dirty. -/
def storeBuckets : List BucketPut → LockM Bool
  | [] => return true
  | o :: buckets => do
    if !(← onObject (.bucket o.uuid) (·.storeBucket o)) then return false
    storeBuckets buckets

/-- `__store_other_buckets`, if the store gets to it. -/
def storeOtherBuckets (reached : Bool) (buckets : List BucketPut) : LockM Bool :=
  if reached then storeBuckets buckets else return true

/-- `nexus_metadata_store` of an object, whose buckets are stored first. -/
def storeObject (uuid : Uuid) (o : DirPut) : LockM Bool := do
  let c := (← get) (.object uuid)
  let stored ← storeOtherBuckets (!c.skipsStore) o.buckets
  flush (.object uuid) (o.main.after stored)

/-- `__nexus_metadata_sync` of an object. -/
def syncObject (uuid : Uuid) (buckets : List BucketPut) (o : SyncOutcome) : LockM Bool := do
  let c := (← get) (.object uuid)
  let stored ← storeOtherBuckets (c.syncLocks o.lock && !c.skipsStore) buckets
  onObject (.object uuid) (·.sync { o with put := o.put.after stored })

/-! ## Path walks -/

/-- A step of a path walk: a directory is revalidated, or its copy is evicted for
that of another one. -/
inductive Visit where
  | revalidate (uuid : Uuid) (o : DentryOutcome)
  | evict (uuid : Uuid)
  deriving DecidableEq, Repr

/-- One step of a walk; the copy that the ecall holds is not evicted. -/
def Visit.run (held : Option Uuid) : Visit → LockM Unit
  | .revalidate uuid o =>
    modifyObject (.object uuid) fun c =>
      (c.dentryRevalidate nexusFread (o.through (decide (held = some uuid)))).1
  | .evict uuid => if held = some uuid then pure () else modifyObject (.object uuid) (·.evict)

def walk (held : Option Uuid) : List Visit → LockM Unit
  | [] => pure ()
  | v :: vs => do
    v.run held
    walk held vs

/-- The dentry that a path leads to, how its metadata is got, and how the lock is
given back. -/
structure ObjectGet where
  found : Option Uuid
  get : DentryOutcome
  release : OcallResult
  deriving DecidableEq, Repr

/-- `dentry_get_metadata`. -/
def dentryGetMetadata (uuid : Uuid) (flags : IoFlags) (o : DentryOutcome) : LockM Bool :=
  onObject (.object uuid) (·.dentryRevalidate flags o)

/-- `nexus_vfs_put`. -/
def nexusVfsPut (uuid : Uuid) (r : OcallResult) : LockM Unit := release (.object uuid) r

/-- `nexus_vfs_get`, what the ecall does with the metadata, and `nexus_vfs_put`. -/
def withObject (p : ObjectGet) (flags : IoFlags) (body : Uuid → LockM Bool) : LockM Bool := do
  match p.found with
  | none => return false
  | some uuid =>
    if !(← dentryGetMetadata uuid flags p.get) then return false
    let ok ← body uuid
    nexusVfsPut uuid p.release
    return ok

/-! ## The access check -/

/-- How a new audit log is made: the lock and the put of `nexus_metadata_create`, and
the sync of the object that is to name it. -/
structure NewLog where
  lock : OcallResult
  put : PutOutcome
  buckets : List BucketPut
  sync : SyncOutcome
  deriving DecidableEq, Repr

/-- How an access is recorded; `create` is `none` if the object has a log. -/
structure AuditOutcome where
  log : Uuid
  create : Option NewLog
  get : LoadOutcome
  added : Bool
  put : PutOutcome
  deriving DecidableEq, Repr

/-- How the parts of an access check end; `audit` is `none` if no audit is asked
for. -/
structure CheckOutcome where
  policyStore : RevalidateOutcome
  updated : Bool
  attributeSpace : RevalidateOutcome
  user : Uuid
  profile : RevalidateOutcome
  entity : Bool
  facts : Bool
  permitted : Bool
  audit : Option AuditOutcome
  unlock : OcallResult
  deriving DecidableEq, Repr

/-- `metadata_create_audit_log`. -/
def metadataCreateAuditLog (uuid : Uuid) (o : AuditOutcome) : LockM Bool := do
  match o.create with
  | none => return true
  | some new =>
    if !(← createObject (.auditLog o.log) new.lock new.put) then return false
    markDirty (.object uuid)
    syncObject uuid new.buckets new.sync

/-- `__audit_abac_request`. -/
def auditAbacRequest (uuid : Uuid) : Option AuditOutcome → LockM Bool
  | none => return true
  | some o => do
    if !(← metadataCreateAuditLog uuid o) then return false
    if !(← onObject (.auditLog o.log) (·.vfsLoad false nexusFrdwr o.get)) then return false
    if !o.added then return false
    markDirty (.auditLog o.log)
    flush (.auditLog o.log) o.put

/-- `abac_refresh_bouncer_policy_store`. -/
def abacRefreshBouncerPolicyStore (o : CheckOutcome) : LockM Bool := do
  let c := (← get) .policyStore
  if c.metadata.isSome && !c.hasChanged o.policyStore then return o.updated
  if !(← onObject .policyStore (·.load nexusFread o.policyStore.read)) then return false
  -- the rules of the old policy store are removed
  if c.metadata.isNone then failure
  if !o.updated then
    modifyObject .policyStore ({ · with metadata := c.metadata })
    return false
  return true

/-- `__destroy_abac_request`. -/
def destroyAbacRequest (o : CheckOutcome) : LockM Unit := do
  release .policyStore o.unlock
  release .attributeSpace o.unlock
  release (.userProfile o.user) o.unlock

/-- `__create_abac_request`. -/
def createAbacRequest (o : CheckOutcome) : LockM Bool := do
  if !(← abacRefreshBouncerPolicyStore o) then return false
  if !(← acquire .attributeSpace nexusFread o.attributeSpace) then
    release .policyStore o.unlock
    return false
  if !(← acquire (.userProfile o.user) nexusFread o.profile) then
    release .policyStore o.unlock
    release .attributeSpace o.unlock
    return false
  if !o.entity then
    destroyAbacRequest o
    return false
  return true

/-- `bouncer_access_check`. -/
def bouncerAccessCheck (owner : Bool) (uuid : Uuid) (o : CheckOutcome) : LockM Bool := do
  if owner then return true
  -- the error code of a request that is not made counts as true
  if !(← createAbacRequest o) then return true
  if !o.facts || !o.permitted then
    destroyAbacRequest o
    return false
  let audited ← auditAbacRequest uuid o.audit
  destroyAbacRequest o
  return audited

/-! ## The tables -/

/-- An ecall that changes a table: whether its helper succeeds, and how its calls
end. -/
structure TableUpdate where
  acquire : RevalidateOutcome
  changed : Bool
  put : PutOutcome
  release : OcallResult
  deriving DecidableEq, Repr

structure TableRead where
  acquire : RevalidateOutcome
  found : Bool
  release : OcallResult
  deriving DecidableEq, Repr

/-- An ecall that adds the lines of its argument; each is added or refused. -/
structure BulkAdd where
  acquire : RevalidateOutcome
  lines : List Bool
  maxNumber : Nat
  put : PutOutcome
  release : OcallResult
  reload : ReadOutcome
  deriving DecidableEq, Repr

/-- An update that does not give the table back if the flush fails. -/
def updateUnreleased (x : Lockable) (o : TableUpdate) : LockM Bool := do
  if !(← acquire x nexusFrdwr o.acquire) then return false
  if !o.changed then
    release x o.release
    return false
  markDirty x
  flush x o.put

/-- An update that gives the table back if it fails. -/
def updateReleased (x : Lockable) (o : TableUpdate) : LockM Bool := do
  if !(← acquire x nexusFrdwr o.acquire) then return false
  if !o.changed then
    release x o.release
    return false
  markDirty x
  if !(← flush x o.put) then
    release x o.release
    return false
  return true

/-- The loop over the lines: whether all are added, and how many. -/
def addLines (maxNumber : Nat) : Nat → List Bool → Bool × Nat
  | added, [] => (true, added)
  | added, false :: _ => (false, added)
  | added, true :: lines =>
    if added + 1 = maxNumber then (true, added + 1) else addLines maxNumber (added + 1) lines

def bulkAdd (x : Lockable) (o : BulkAdd) : LockM Bool := do
  if !(← acquire x nexusFrdwr o.acquire) then return false
  let (ok, added) := addLines o.maxNumber 0 o.lines
  if added ≠ 0 then markDirty x
  if !ok then
    modifyObject x (·.reset o.release o.reload)
    return false
  flush x o.put

def readReleased (x : Lockable) (flags : IoFlags) (o : TableRead) : LockM Bool := do
  if !(← acquire x flags o.acquire) then return false
  release x o.release
  return o.found

def ecallAbacAttributeAdd : TableUpdate → LockM Bool := updateUnreleased .attributeSpace

def ecallAbacAttributeDel : TableUpdate → LockM Bool := updateUnreleased .attributeSpace

def ecallAbacAttributeAddBulk : BulkAdd → LockM Bool := bulkAdd .attributeSpace

/-- The attribute space is opened for writing to be listed. -/
def ecallAbacAttributeLs : TableRead → LockM Bool := readReleased .attributeSpace nexusFrdwr

def ecallAbacPolicyAdd : TableUpdate → LockM Bool := updateReleased .policyStore

def ecallAbacPolicyDel : TableUpdate → LockM Bool := updateReleased .policyStore

def ecallAbacPolicyDelFirst : TableUpdate → LockM Bool := updateReleased .policyStore

def ecallAbacPolicyAddBulk : BulkAdd → LockM Bool := bulkAdd .policyStore

/-- Only an error gives the policy store back. -/
def ecallAbacPolicyLs (o : TableRead) : LockM Bool := do
  if !(← acquire .policyStore nexusFread o.acquire) then return false
  if !o.found then
    release .policyStore o.release
    return false
  return true

/-! ## Users -/

structure UserAdd where
  acquire : RevalidateOutcome
  added : Bool
  user : Uuid
  profileLock : OcallResult
  profilePut : PutOutcome
  put : PutOutcome
  release : OcallResult
  deriving DecidableEq, Repr

structure UserRemove where
  acquire : RevalidateOutcome
  removed : Bool
  put : PutOutcome
  user : Uuid
  deleted : Bool
  release : OcallResult
  deriving DecidableEq, Repr

/-- The end of an ecall that gives the user table back and returns the result. -/
def releaseUserTable (r : OcallResult) (ok : Bool) : LockM Bool := do
  release .userTable r
  return ok

def ecallUserAdd (owner : Bool) (o : UserAdd) : LockM Bool := do
  if !owner then return false
  if !(← acquire .userTable nexusFrdwr o.acquire) then return false
  if !o.added then return ← releaseUserTable o.release false
  markDirty .userTable
  if !(← createObject (.userProfile o.user) o.profileLock o.profilePut) then
    return ← releaseUserTable o.release false
  if !(← flush .userTable o.put) then return ← releaseUserTable o.release false
  releaseUserTable o.release true

/-- The flush of the user table and `abac_del_user_profile`. -/
def finishUserRemove (o : UserRemove) : LockM Bool := do
  markDirty .userTable
  if !(← flush .userTable o.put) then return ← releaseUserTable o.release false
  modifyObject (.userProfile o.user) (·.evictBuffer)
  releaseUserTable o.release o.deleted

/-- A name that is not in the table returns at once. -/
def ecallUserRemoveUsername (owner : Bool) (o : UserRemove) : LockM Bool := do
  if !owner then return false
  if !(← acquire .userTable nexusFrdwr o.acquire) then return false
  if !o.removed then return false
  finishUserRemove o

def ecallUserRemovePubkey (owner : Bool) (o : UserRemove) : LockM Bool := do
  if !owner then return false
  if !(← acquire .userTable nexusFrdwr o.acquire) then return false
  if !o.removed then return ← releaseUserTable o.release false
  finishUserRemove o

def userRead (owner : Bool) (o : TableRead) : LockM Bool := do
  if !owner then return false
  readReleased .userTable nexusFread o

def ecallUserFindUsername : Bool → TableRead → LockM Bool := userRead

def ecallUserFindPubkey : Bool → TableRead → LockM Bool := userRead

def ecallUserLs : Bool → TableRead → LockM Bool := userRead

/-- An ecall on the profile of a user: whether the user is found, and whether the
helper succeeds once it has the attribute space. -/
structure ProfileCall where
  table : RevalidateOutcome
  tableRelease : OcallResult
  user : Option Uuid
  load : ReadOutcome
  space : RevalidateOutcome
  changed : Bool
  put : PutOutcome
  release : OcallResult
  deriving DecidableEq, Repr

/-- `abac_put_user_profile`, after which the copy of the caller is gone; `cached` is
the copy that the enclave keeps of the profile of the current user. -/
def abacPutUserProfile (user : Uuid) (cached : Option MetadataLock) (o : ProfileCall) :
    LockM Bool := do
  let ok ← flush (.userProfile user) o.put
  if ok then release (.userProfile user) o.release
  modifyObject (.userProfile user) ({ · with metadata := cached })
  return ok

/-- The effect of the helper on the profile, and the put. -/
def changeProfile (modifies : Bool) (user : Uuid) (cached : Option MetadataLock) (ok : Bool)
    (o : ProfileCall) : LockM Bool := do
  if ok && modifies then markDirty (.userProfile user)
  return (← abacPutUserProfile user cached o) && ok

/-- The helper and the put, once the profile is opened. -/
def finishProfile (modifies : Bool) (user : Uuid) (cached : Option MetadataLock)
    (o : ProfileCall) : LockM Bool := do
  release .userTable o.tableRelease
  let opened ← acquire .attributeSpace nexusFread o.space
  changeProfile modifies user cached (opened && o.changed) o

/-- `abac_get_user_profile`, the helper, and `abac_put_user_profile`. -/
def withUserProfile (flags : IoFlags) (modifies : Bool) (o : ProfileCall) : LockM Bool := do
  if !(← acquire .userTable nexusFread o.table) then return false
  match o.user with
  | none => releaseUserTable o.tableRelease false
  | some user =>
    let cached := ((← get) (.userProfile user)).metadata
    if !(← onObject (.userProfile user) (·.load flags o.load)) then
      return ← releaseUserTable o.tableRelease false
    finishProfile modifies user cached o

def ecallAbacUserAttributeGrant : ProfileCall → LockM Bool := withUserProfile nexusFrdwr true

def ecallAbacUserAttributeRevoke : ProfileCall → LockM Bool := withUserProfile nexusFrdwr true

def ecallAbacUserAttributeLs : ProfileCall → LockM Bool := withUserProfile nexusFread false

/-! ## Objects -/

/-- An ecall on the attributes of an object. -/
structure ObjectCall where
  object : ObjectGet
  space : RevalidateOutcome
  changed : Bool
  put : DirPut
  deriving DecidableEq, Repr

/-- `__do_object_attribute_grant` and its siblings, and the store. -/
def objectAttributes (modifies : Bool) (o : ObjectCall) (uuid : Uuid) : LockM Bool := do
  if !(← acquire .attributeSpace nexusFread o.space) then return false
  if !o.changed then return false
  if modifies then markDirty (.object uuid)
  storeObject uuid o.put

def ecallAbacObjectAttributeGrant (o : ObjectCall) : LockM Bool :=
  withObject o.object nexusFrdwr (objectAttributes true o)

def ecallAbacObjectAttributeRevoke (o : ObjectCall) : LockM Bool :=
  withObject o.object nexusFrdwr (objectAttributes true o)

def ecallAbacObjectAttributeLs (o : ObjectCall) : LockM Bool :=
  withObject o.object nexusFread (objectAttributes false o)

structure PrintAuditLog where
  object : ObjectGet
  log : Option Uuid
  get : LoadOutcome
  table : TableRead
  release : OcallResult
  deriving DecidableEq, Repr

def ecallAbacPrintAuditLog (o : PrintAuditLog) : LockM Bool :=
  withObject o.object nexusFrdwr fun _ => do
    match o.log with
    | none => return false
    | some log =>
      if !(← onObject (.auditLog log) (·.vfsLoad false nexusFread o.get)) then return false
      let ok ← readReleased .userTable nexusFread o.table
      release (.auditLog log) o.release
      return ok

/-! ## Directories -/

/-- An ecall that adds an entry: whether the file is made, and whether the name is
free. -/
structure DirUpdate where
  dir : ObjectGet
  check : CheckOutcome
  created : Bool
  added : Bool
  put : DirPut
  deriving DecidableEq, Repr

/-- `buffer_layer_new`, the new entry, and the store. -/
def addEntry (o : DirUpdate) (uuid : Uuid) : LockM Bool := do
  if !o.created || !o.added then return false
  markDirty (.object uuid)
  storeObject uuid o.put

def ecallFsCreate (owner : Bool) (o : DirUpdate) : LockM Bool :=
  withObject o.dir nexusFrdwr fun uuid => do
    if !(← bouncerAccessCheck owner uuid o.check) then return false
    addEntry o uuid

/-- There is no access check. -/
def ecallFsSymlink (o : DirUpdate) : LockM Bool := withObject o.dir nexusFrdwr (addEntry o)

/-- How `__remove_filenode` ends. -/
structure RemoveFile where
  table : RevalidateOutcome
  contained : Bool
  last : Bool
  put : PutOutcome
  release : OcallResult
  deriving DecidableEq, Repr

/-- The entry that is removed. -/
inductive Removed where
  | file (uuid : Uuid) (o : RemoveFile)
  | dir (uuid : Uuid)
  | link
  deriving DecidableEq, Repr

structure DirRemove where
  dir : ObjectGet
  check : CheckOutcome
  entry : Option Removed
  put : DirPut
  deriving DecidableEq, Repr

/-- `nexus_vfs_delete`. -/
def nexusVfsDelete (uuid : Uuid) : LockM Unit := modifyObject (.object uuid) (·.evict)

/-- `__remove_filenode`. -/
def removeFilenode (uuid : Uuid) (o : RemoveFile) : LockM Bool := do
  if !(← acquire .hardlinkTable nexusFrdwr o.table) then return false
  if !o.contained then
    release .hardlinkTable o.release
    nexusVfsDelete uuid
    return true
  markDirty .hardlinkTable
  if o.last then nexusVfsDelete uuid
  flush .hardlinkTable o.put

def removeEntry : Removed → LockM Bool
  | .file uuid o => removeFilenode uuid o
  | .dir uuid => do
    nexusVfsDelete uuid
    return true
  | .link => return true

def ecallFsRemove (owner : Bool) (o : DirRemove) : LockM Bool :=
  withObject o.dir nexusFrdwr fun uuid => do
    if !(← bouncerAccessCheck owner uuid o.check) then return false
    match o.entry with
    | none => return false
    | some entry =>
      if !(← removeEntry entry) then return false
      markDirty (.object uuid)
      storeObject uuid o.put

structure DirRead where
  dir : ObjectGet
  check : CheckOutcome
  found : Bool
  deriving DecidableEq, Repr

def checkedRead (owner : Bool) (o : DirRead) : LockM Bool :=
  withObject o.dir nexusFread fun uuid => do
    if !(← bouncerAccessCheck owner uuid o.check) then return false
    return o.found

def ecallFsLookup : Bool → DirRead → LockM Bool := checkedRead

def ecallFsReaddir : Bool → DirRead → LockM Bool := checkedRead

/-- There is no access check. -/
def ecallFsReadlink (o : DirRead) : LockM Bool :=
  withObject o.dir nexusFread fun _ => return o.found

/-- How the file itself is found: the rest of the walk, and the dentry it ends at;
`atParent` if that is where it started, and then nothing is revalidated. -/
structure StatFile where
  visits : List Visit
  atParent : Bool
  file : ObjectGet
  linkCount : Option TableRead
  deriving DecidableEq, Repr

/-- The parent directory, the link count if it is looked up for the link, and the
file if it is asked for. -/
structure Stat where
  parent : Option (Uuid × DentryOutcome)
  linkCount : Option TableRead
  file : Option StatFile
  deriving DecidableEq, Repr

/-- `__export_link_count`, whose result is dropped. -/
def exportLinkCount : Option TableRead → LockM Unit
  | none => return
  | some o => do
    let _ ← readReleased .hardlinkTable nexusFread o

/-- `nexus_vfs_complete_lookup` and what is done with the metadata. -/
def statFile (o : StatFile) : LockM Bool := do
  walk none o.visits
  match o.file.found with
  | none => return false
  | some uuid =>
    if !o.atParent then
      if !(← dentryGetMetadata uuid nexusFread o.file.get) then return false
    exportLinkCount o.linkCount
    nexusVfsPut uuid o.file.release
    return true

def ecallFsStat (o : Stat) : LockM Bool := do
  match o.parent with
  | none => return false
  | some (uuid, revalidate) =>
    if !(← dentryGetMetadata uuid nexusFread revalidate) then return false
    exportLinkCount o.linkCount
    match o.file with
    | none => return true
    | some file => statFile file

/-- The directory `dst` of the file is opened for writing and stored, the directory
`src` that gets the new link is not. -/
structure Hardlink where
  dst : ObjectGet
  samePath : Bool
  visits : List Visit
  src : ObjectGet
  isFile : Bool
  table : RevalidateOutcome
  tablePut : PutOutcome
  added : Bool
  put : DirPut
  deriving DecidableEq, Repr

/-- `__nxs_fs_hardlink`, and the store. -/
def fsHardlink (src dst : Uuid) (o : Hardlink) : LockM Bool := do
  if !o.isFile then return false
  if !(← acquire .hardlinkTable nexusFrdwr o.table) then return false
  markDirty .hardlinkTable
  if !(← flush .hardlinkTable o.tablePut) then return false
  if !o.added then return false
  markDirty (.object src)
  storeObject dst o.put

/-- `do_hardlink` with the two puts. -/
def finishHardlink (src dst : Uuid) (o : Hardlink) : LockM Bool := do
  let ok ← fsHardlink src dst o
  nexusVfsPut src o.src.release
  nexusVfsPut dst o.dst.release
  return ok

/-- The part of `ecall_fs_hardlink` in which the second directory is looked up. -/
def linkAcross (dst : Uuid) (o : Hardlink) : LockM Bool := do
  walk (some dst) o.visits
  match o.src.found with
  | none =>
    nexusVfsPut dst o.dst.release
    return false
  | some src =>
    if !(← dentryGetMetadata src nexusFread (o.src.get.through (decide (src = dst)))) then
      nexusVfsPut dst o.dst.release
      return false
    finishHardlink src dst o

def ecallFsHardlink (o : Hardlink) : LockM Bool := do
  match o.dst.found with
  | none => return false
  | some dst =>
    if !(← dentryGetMetadata dst nexusFrdwr o.dst.get) then return false
    if o.samePath then finishHardlink dst dst o else linkAcross dst o

/-- A rename within one directory, or between the directories of two dentries. -/
inductive RenameDirs where
  | one (dir : ObjectGet)
  | two (src dst : ObjectGet)
  deriving DecidableEq, Repr

structure Rename where
  dirs : RenameDirs
  renamed : Bool
  srcPut : DirPut
  dstPut : DirPut
  deriving DecidableEq, Repr

/-- `__nxs_fs_rename` between two directories, and the two stores. -/
def renameAndStore (src dst : Uuid) (o : Rename) : LockM Bool := do
  if !o.renamed then return false
  markDirty (.object src)
  markDirty (.object dst)
  if !(← storeObject src o.srcPut) then return false
  storeObject dst o.dstPut

/-- `do_rename` with the two puts. -/
def finishRename (p q : ObjectGet) (src dst : Uuid) (o : Rename) : LockM Bool := do
  let ok ← renameAndStore src dst o
  nexusVfsPut src p.release
  nexusVfsPut dst q.release
  return ok

/-- The part of `ecall_fs_rename` between two directories. -/
def renameAcross (p q : ObjectGet) (src dst : Uuid) (o : Rename) : LockM Bool := do
  let hasSrc ← dentryGetMetadata src nexusFrdwr p.get
  let hasDst ← dentryGetMetadata dst nexusFrdwr (q.get.through (hasSrc && decide (dst = src)))
  -- the destination is not given back
  if !hasSrc then return false
  if !hasDst then
    nexusVfsPut src p.release
    return false
  finishRename p q src dst o

def ecallFsRename (o : Rename) : LockM Bool := do
  match o.dirs with
  | .one p =>
    withObject p nexusFrdwr fun dir => do
      if !o.renamed then return false
      markDirty (.object dir)
      storeObject dir o.srcPut
  | .two p q =>
    match p.found, q.found with
    | some src, some dst => renameAcross p q src dst o
    | _, _ => return false

/-! ## All ecalls -/

inductive Ecall where
  | fsCreate (o : DirUpdate)
  | fsRemove (o : DirRemove)
  | fsLookup (o : DirRead)
  | fsStat (o : Stat)
  | fsReaddir (o : DirRead)
  | fsSymlink (o : DirUpdate)
  | fsReadlink (o : DirRead)
  | fsHardlink (o : Hardlink)
  | fsRename (o : Rename)
  | userAdd (o : UserAdd)
  | userRemoveUsername (o : UserRemove)
  | userRemovePubkey (o : UserRemove)
  | userFindUsername (o : TableRead)
  | userFindPubkey (o : TableRead)
  | userLs (o : TableRead)
  | abacAttributeAddBulk (o : BulkAdd)
  | abacAttributeAdd (o : TableUpdate)
  | abacAttributeDel (o : TableUpdate)
  | abacAttributeLs (o : TableRead)
  | abacUserAttributeGrant (o : ProfileCall)
  | abacUserAttributeRevoke (o : ProfileCall)
  | abacUserAttributeLs (o : ProfileCall)
  | abacObjectAttributeGrant (o : ObjectCall)
  | abacObjectAttributeRevoke (o : ObjectCall)
  | abacObjectAttributeLs (o : ObjectCall)
  | abacPolicyAddBulk (o : BulkAdd)
  | abacPolicyAdd (o : TableUpdate)
  | abacPolicyDel (o : TableUpdate)
  | abacPolicyDelFirst (o : TableUpdate)
  | abacPolicyLs (o : TableRead)
  /-- `ecall_abac_print_facts`, `ecall_abac_print_rules`, `ecall_abac_clear_facts` and
  `ecall_abac_clear_rules`. -/
  | abacDatabase (ok : Bool)
  | abacPrintAuditLog (o : PrintAuditLog)
  deriving DecidableEq, Repr

/-- What the ecall does to the locks; `owner` is whether the current user is the
owner of the volume. -/
def Ecall.run (owner : Bool) : Ecall → LockM Bool
  | .fsCreate o => ecallFsCreate owner o
  | .fsRemove o => ecallFsRemove owner o
  | .fsLookup o => ecallFsLookup owner o
  | .fsStat o => ecallFsStat o
  | .fsReaddir o => ecallFsReaddir owner o
  | .fsSymlink o => ecallFsSymlink o
  | .fsReadlink o => ecallFsReadlink o
  | .fsHardlink o => ecallFsHardlink o
  | .fsRename o => ecallFsRename o
  | .userAdd o => ecallUserAdd owner o
  | .userRemoveUsername o => ecallUserRemoveUsername owner o
  | .userRemovePubkey o => ecallUserRemovePubkey owner o
  | .userFindUsername o => ecallUserFindUsername owner o
  | .userFindPubkey o => ecallUserFindPubkey owner o
  | .userLs o => ecallUserLs owner o
  | .abacAttributeAddBulk o => ecallAbacAttributeAddBulk o
  | .abacAttributeAdd o => ecallAbacAttributeAdd o
  | .abacAttributeDel o => ecallAbacAttributeDel o
  | .abacAttributeLs o => ecallAbacAttributeLs o
  | .abacUserAttributeGrant o => ecallAbacUserAttributeGrant o
  | .abacUserAttributeRevoke o => ecallAbacUserAttributeRevoke o
  | .abacUserAttributeLs o => ecallAbacUserAttributeLs o
  | .abacObjectAttributeGrant o => ecallAbacObjectAttributeGrant o
  | .abacObjectAttributeRevoke o => ecallAbacObjectAttributeRevoke o
  | .abacObjectAttributeLs o => ecallAbacObjectAttributeLs o
  | .abacPolicyAddBulk o => ecallAbacPolicyAddBulk o
  | .abacPolicyAdd o => ecallAbacPolicyAdd o
  | .abacPolicyDel o => ecallAbacPolicyDel o
  | .abacPolicyDelFirst o => ecallAbacPolicyDelFirst o
  | .abacPolicyLs o => ecallAbacPolicyLs o
  | .abacDatabase ok => return ok
  | .abacPrintAuditLog o => ecallAbacPrintAuditLog o

end Nexus.Locking
