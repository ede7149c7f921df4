import Nexus.Fs.View

/-!
# The dentry cache and path walks

`dentry.c`, with the parts of `metadata.c` and `vfs.c` that it calls.  A dentry
names the object of one entry of its parent directory; dentries are numbered in
the order in which they are allocated.  A directory that is read is kept as a
copy, and the dentries of a copy are in its `dentry_list`, the newest first.

Reads of an object that is stored succeed, and what is read is the object of the
uuid that was asked for.  A dentry that was deleted stays allocated, since its
children may point to it; it is in no list of children.
-/

namespace Nexus.Dcache

open Codec

/-- A directory in the datastore; a file is one without entries. -/
structure StoredDir where
  dirnode : Contents
  timestamp : Nat

/-- `struct nexus_metadata` of a directory, with the timestamp of its buffer. -/
structure Copy where
  dirnode : Contents
  timestamp : Nat
  isInvalid : Bool
  dentryList : List Nat

/-- `struct nexus_dentry`. -/
structure Dentry where
  direntType : DirentType
  parentChanged : Bool
  name : Name
  linkUuid : Uuid
  parent : Option Nat
  children : List Nat
  deriving DecidableEq

/-- The datastore, the metadata cache and the dentries of a client. -/
structure Vfs where
  stored : Uuid → Option StoredDir
  copies : Uuid → Option Copy
  dentries : Nat → Dentry
  next : Nat

/-- `global_root_dentry`. -/
def rootDentry : Nat := 0

/-- `dcache_init_root`, after `nexus_vfs_init`. -/
def dcacheInitRoot (rootUuid : Uuid) (stored : Uuid → Option StoredDir) : Vfs where
  stored := stored
  copies := fun _ => none
  dentries := fun _ => ⟨.dir, false, ⟨[47], by decide, by decide⟩, rootUuid, none, []⟩
  next := 1

namespace Vfs

/-! ## Dentries -/

def modifyDentry (id : Nat) (f : Dentry → Dentry) (s : Vfs) : Vfs :=
  { s with dentries := Function.update s.dentries id (f (s.dentries id)) }

def modifyCopy (uuid : Uuid) (f : Copy → Copy) (s : Vfs) : Vfs :=
  { s with copies := Function.update s.copies uuid ((s.copies uuid).map f) }

/-- `d_alloc`. -/
def dAlloc (parent : Nat) (uuid : Uuid) (name : Name) (type : DirentType) (s : Vfs) : Vfs × Nat :=
  let dentry : Dentry := ⟨type, false, name, uuid, some parent, []⟩
  let s' := s.modifyDentry parent fun d => { d with children := d.children ++ [s.next] }
  ({ s'.modifyDentry s.next fun _ => dentry with next := s.next + 1 }, s.next)

/-- `d_lookup`. -/
def dLookup (s : Vfs) (parent : Nat) (name : Name) : Option Nat :=
  (s.dentries parent).children.find? fun child => (s.dentries child).name = name

/-- `d_iput`. -/
def dIput (id : Nat) (s : Vfs) : Vfs :=
  s.modifyCopy (s.dentries id).linkUuid fun c => { c with dentryList := c.dentryList.erase id }

/-- `dentry_delete`. -/
def dentryDelete (id : Nat) (s : Vfs) : Vfs :=
  if id = rootDentry then s
  else
    match (s.dentries id).parent with
    | none => s.dIput id
    | some parent =>
      let s := s.modifyDentry parent fun d => { d with children := d.children.erase id }
      (s.modifyDentry id fun d => { d with parent := none, parentChanged := false }).dIput id

/-- `dentry_instantiate`. -/
def dentryInstantiate (id : Nat) (s : Vfs) : Vfs :=
  s.modifyCopy (s.dentries id).linkUuid fun c => { c with dentryList := id :: c.dentryList }

/-- Mark the children of a directory that was read anew. -/
def setParentChanged (id : Nat) (s : Vfs) : Vfs :=
  { s with
    dentries := fun child =>
      if child ∈ (s.dentries id).children then { s.dentries child with parentChanged := true }
      else s.dentries child }

/-! ## Copies -/

/-- `nexus_metadata_load` and `nexus_lru_put`; a copy that is replaced is freed, and
its dentries are invalidated. -/
def nexusMetadataLoad (uuid : Uuid) (s : Vfs) : Option Vfs :=
  (s.stored uuid).map fun d =>
    { s with copies := Function.update s.copies uuid (some ⟨d.dirnode, d.timestamp, false, []⟩) }

/-- `nexus_metadata_reload`. -/
def nexusMetadataReload (uuid : Uuid) (s : Vfs) : Option Vfs :=
  (s.stored uuid).map fun d =>
    s.modifyCopy uuid fun c =>
      { c with dirnode := d.dirnode, timestamp := d.timestamp, isInvalid := false }

/-- `buffer_layer_revalidate`: an object that cannot be looked up has not changed. -/
def hasChanged (s : Vfs) (uuid : Uuid) (c : Copy) : Bool :=
  match s.stored uuid with
  | none => false
  | some d => decide (c.timestamp < d.timestamp)

/-- `nexus_metadata_revalidate`; an invalid copy is read anew without being reported as
changed. -/
def nexusMetadataRevalidate (uuid : Uuid) (c : Copy) (s : Vfs) : Option (Vfs × Bool) :=
  if c.isInvalid then (s.nexusMetadataReload uuid).map (·, false)
  else if s.hasChanged uuid c then (s.nexusMetadataReload uuid).map (·, true)
  else some (s, false)

/-- `nexus_vfs_load`, which drops whether the copy has changed. -/
def nexusVfsLoad (uuid : Uuid) (s : Vfs) : Option Vfs :=
  match s.copies uuid with
  | none => s.nexusMetadataLoad uuid
  | some c =>
    match s.nexusMetadataRevalidate uuid c with
    | some (s, _) => some s
    | none => s.nexusMetadataLoad uuid

/-- `dentry->metadata` is set. -/
def instantiated (s : Vfs) (id : Nat) : Bool :=
  (s.copies (s.dentries id).linkUuid).any fun c => decide (id ∈ c.dentryList)

/-- `dentry_revalidate`. -/
def dentryRevalidate (id : Nat) (s : Vfs) : Option Vfs :=
  let uuid := (s.dentries id).linkUuid
  if (s.dentries id).direntType = .lnk then none
  else
    match s.copies uuid, s.instantiated id with
    | some c, true =>
      match s.nexusMetadataRevalidate uuid c with
      | none => none
      | some (s, hasReloaded) => some (if hasReloaded then s.setParentChanged id else s)
    | _, _ => (s.nexusVfsLoad uuid).map (dentryInstantiate id)

end Vfs

/-! ## Path walks -/

/-- A token of `strtok_r`, and whether it is the end of the path: `remaining_path` is
`NULL` after it. -/
structure Component where
  name : Bytes
  atEnd : Bool
  deriving DecidableEq, Repr

/-- The tokens of a path that has been read up to an unfinished token. -/
def tokens (token : Bytes) : Bytes → List Component
  | [] => if token = [] then [] else [⟨token.reverse, true⟩]
  | b :: path =>
    if b = 47 then
      if token = [] then tokens [] path else ⟨token.reverse, false⟩ :: tokens [] path
    else tokens (b :: token) path

/-- The results of `strtok_r(.., "/", ..)` on a path. -/
def components (path : Bytes) : List Component := tokens [] path

/-- `path_walk_type_t`. -/
inductive WalkType where
  | normal
  | parent
  deriving DecidableEq, Repr

/-- The name is `.`. -/
def Component.isDot (c : Component) : Bool := decide (c.name = [46])

/-- The name is taken for the parent directory: it starts with `..`. -/
def Component.goesUp (c : Component) : Bool := [46, 46].isPrefixOf c.name

/-- Where one step of a walk leads. -/
inductive Next where
  | dentry (id : Nat)
  | link (target : Bytes)
  | missing
  deriving DecidableEq, Repr

namespace Vfs

/-- The entry of a name in the copy of the directory of a dentry. -/
def findByName (s : Vfs) (id : Nat) (name : Name) : Option (DirentType × Uuid) :=
  (s.copies (s.dentries id).linkUuid).bind fun c => c.dirnode.entries name

/-- `dirnode_get_link`, for a walk; a link without a target leads to its own directory. -/
def getLink (s : Vfs) (id : Nat) (uuid : Uuid) : Bytes :=
  ((s.copies (s.dentries id).linkUuid).bind fun c => c.dirnode.links uuid).getD []

/-- The dentry that `walk_path` uses for an entry, given the cached child of its name:
a child with another uuid is deleted. -/
def dentryOf (curr : Nat) (uuid : Uuid) (name : Name) (type : DirentType) (s : Vfs) :
    Option Nat → Vfs × Nat
  | none => s.dAlloc curr uuid name type
  | some child =>
    if uuid = (s.dentries child).linkUuid then
      (s.modifyDentry child fun d => { d with parentChanged := false }, child)
    else (s.dentryDelete child).dAlloc curr uuid name type

/-- The part of `walk_path` after `lookup_dirnode`. -/
def lookupDirnode (curr : Nat) (name : Name) (child : Option Nat) (s : Vfs) : Vfs × Next :=
  match s.findByName curr name with
  | none => (s, .missing)
  | some (.lnk, uuid) => (s, .link (s.getLink curr uuid))
  | some (type, uuid) =>
    let (s, next) := s.dentryOf curr uuid name type child
    (s, .dentry next)

/-- The step of `walk_path` from a directory that was revalidated. -/
def lookupNext (curr : Nat) (name : Bytes) (s : Vfs) : Vfs × Next :=
  match Name.ofBytes? name with
  | none => (s, .missing)
  | some name =>
    match s.dLookup curr name with
    | none => s.lookupDirnode curr name none
    | some child =>
      if (s.dentries child).parentChanged then s.lookupDirnode curr name (some child)
      else (s, .dentry child)

end Vfs

/-- `walk_path` from a dentry, given how links are followed.  The result is `none` if
a link is followed that does not return, and otherwise a dentry or `NULL`. -/
def walkPath (follow : Nat → Bytes → Vfs → Option (Vfs × Option Nat)) (type : WalkType) :
    List Component → Nat → Vfs → Option (Vfs × Option Nat)
  | [], curr, s => some (s, some curr)
  | c :: cs, curr, s =>
    if c.isDot then walkPath follow type cs curr s
    else if c.goesUp then
      match (s.dentries curr).parent with
      | none => some (s, none)
      | some parent => walkPath follow type cs parent s
    else if (s.dentries curr).direntType ≠ .dir then some (s, none)
    else if type = .parent && c.atEnd then some (s, some curr)
    else
      match s.dentryRevalidate curr with
      | none => some (s, none)
      | some s =>
        match s.lookupNext curr c.name with
        | (s, .missing) => some (s, none)
        | (s, .dentry next) => walkPath follow type cs next s
        | (s, .link target) =>
          match follow curr target s with
          | none => none
          | some (s, none) => some (s, none)
          | some (s, some next) => walkPath follow type cs next s

/-- `dentry_follow_link`, for links that are nested less deep than the bound. -/
def dentryFollowLink : Nat → Nat → Bytes → Vfs → Option (Vfs × Option Nat)
  | 0, _, _, _ => none
  | depth + 1, dentry, target, s =>
    walkPath (dentryFollowLink depth) .normal (components target) dentry s

/-- `dentry_lookup` from the root, for links that are nested less deep than the
bound. -/
def dentryLookup (depth : Nat) (type : WalkType) (path : Bytes) (s : Vfs) :
    Option (Vfs × Option Nat) :=
  walkPath (dentryFollowLink depth) type (components path) rootDentry s

end Nexus.Dcache
