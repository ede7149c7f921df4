import Nexus.Dentry.Cache
import Nexus.Lib.Recursion

/-!
# What a path leads to

A walk without a cache: every component is looked up in the stored directory.  A
place is the way down from the root to it.  How a component is recognised that goes
to the parent is a parameter, since the code and its purpose differ there.
-/

namespace Nexus.Dcache

open Recursion

/-- The entries on the way to an object, the last one first. -/
abbrev Place := List (Name × DirentType × Uuid)

/-- What an entry names. -/
def Place.object (rootUuid : Uuid) : Place → DirentType × Uuid
  | [] => (.dir, rootUuid)
  | (_, type, uuid) :: _ => (type, uuid)

/-- A volume: its root directory and what is stored. -/
structure Tree where
  rootUuid : Uuid
  stored : Uuid → Option StoredDir

namespace Tree

/-- The directory at a place. -/
def dirAt (t : Tree) (p : Place) : Option Contents :=
  (t.stored (p.object t.rootUuid).2).map StoredDir.dirnode

/-- The entry of a name in the directory at a place. -/
def entryAt (t : Tree) (p : Place) (name : Bytes) : Option (Name × DirentType × Uuid) :=
  (Name.ofBytes? name).bind fun name =>
    (t.dirAt p).bind fun d => (d.entries name).map fun e => (name, e)

/-- The target of a link in the directory at a place. -/
def linkAt (t : Tree) (p : Place) (uuid : Uuid) : Bytes :=
  ((t.dirAt p).bind fun d => d.links uuid).getD []

/-- A walk from a place; following a link is a call. -/
def walk (t : Tree) (up : Component → Bool) (type : WalkType) :
    List Component → Place → Proc (Place × Bytes) (Option Place)
  | [], p => .ret (some p)
  | c :: cs, p =>
    if c.isDot then walk t up type cs p
    else if up c then
      match p with
      | [] => .ret none
      | _ :: p => walk t up type cs p
    else if (p.object t.rootUuid).1 ≠ .dir then .ret none
    else if type = .parent && c.atEnd then .ret (some p)
    else
      match t.entryAt p c.name with
      | none => .ret none
      | some (_, .lnk, uuid) =>
        .call (p, t.linkAt p uuid) fun
          | none => .ret none
          | some p => walk t up type cs p
      | some entry => walk t up type cs (entry :: p)

/-- A link is followed from the directory that holds it. -/
def followLink (t : Tree) (up : Component → Bool) (x : Place × Bytes) :
    Proc (Place × Bytes) (Option Place) :=
  t.walk up .normal (components x.2) x.1

/-- What a path leads to, for links that are nested less deep than the bound. -/
def resolve (t : Tree) (up : Component → Bool) (depth : Nat) (type : WalkType) (path : Bytes) :
    Option (Option Place) :=
  (t.walk up type (components path) []).run (eval (t.followLink up) depth)

end Tree

end Nexus.Dcache
