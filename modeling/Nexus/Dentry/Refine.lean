import Nexus.Dentry.Children

/-!
# Cached walks lead where the stored directories do

From a coherent cache, each step of `walk_path` leads to the dentry of the entry
that is stored, and leaves the cache coherent.  Walks of the code and walks without
a cache therefore agree at every depth of links.
-/

namespace Nexus.Dcache

namespace Vfs

variable {s : Vfs} {curr c : Nat} {p : Place} {name : Name} {bytes : Bytes} {dir : StoredDir}
  {copy : Copy}

/-- A live directory right after it was visited. -/
structure UpToDate (s : Vfs) (curr : Nat) (p : Place) (dir : StoredDir) (copy : Copy) : Prop where
  coherent : s.Coherent
  live : s.Live curr p
  isDir : (s.dentries curr).direntType = .dir
  stored : s.stored (s.dentries curr).linkUuid = some dir
  copied : s.copies (s.dentries curr).linkUuid = some copy
  dirnode : copy.dirnode = dir.dirnode
  timestamp : copy.timestamp = dir.timestamp

namespace UpToDate

section

variable (h : s.UpToDate curr p dir copy)
include h

theorem dirAt : s.tree.dirAt p = some dir.dirnode := by
  rw [dirAt_tree h.coherent.heap h.live, h.stored]
  rfl

theorem storedEntry (name : Name) : s.storedEntry curr name = dir.dirnode.entries name := by
  unfold Vfs.storedEntry
  rw [h.stored]
  rfl

theorem findByName (name : Name) : s.findByName curr name = dir.dirnode.entries name := by
  unfold Vfs.findByName
  rw [h.copied, ← h.dirnode]
  rfl

theorem getLink (uuid : Uuid) : s.getLink curr uuid = s.tree.linkAt p uuid := by
  unfold Vfs.getLink Tree.linkAt
  rw [h.copied, h.dirAt, ← h.dirnode]
  rfl

theorem entryAt (hname : Name.ofBytes? bytes = some name) :
    s.tree.entryAt p bytes = (dir.dirnode.entries name).map fun e => (name, e) := by
  unfold Tree.entryAt
  rw [hname, h.dirAt]
  rfl

end

end UpToDate

/-- What a step of a walk may lead to. -/
def StepAgrees (s : Vfs) (p : Place) (bytes : Bytes) : Vfs × Next → Prop
  | (s', .missing) => s' = s ∧ s.tree.entryAt p bytes = none
  | (s', .link target) => s' = s ∧
    ∃ name uuid, s.tree.entryAt p bytes = some (name, .lnk, uuid) ∧ target = s.tree.linkAt p uuid
  | (s', .dentry id) => s'.Coherent ∧ s'.tree = s.tree ∧
    ∃ e, s.tree.entryAt p bytes = some e ∧ e.2.1 ≠ .lnk ∧ s'.Live id (e :: p)

/-- The dentry is that of the entry. -/
def IsEntry (s : Vfs) (p : Place) (name : Name) (type : DirentType) (uuid : Uuid)
    (r : Vfs × Nat) : Prop :=
  r.1.Coherent ∧ r.1.tree = s.tree ∧ r.1.Live r.2 ((name, type, uuid) :: p)

theorem UpToDate.alloc (h : s.UpToDate curr p dir copy) {type : DirentType} {uuid : Uuid}
    (hentry : dir.dirnode.entries name = some (type, uuid)) (hlnk : type ≠ .lnk)
    (hfresh : ∀ c ∈ (s.dentries curr).children, (s.dentries c).name ≠ name) :
    s.IsEntry p name type uuid (s.dAlloc curr uuid name type) := by
  have hheap := h.coherent.heap
  have hu : s.Uncached curr uuid name type :=
    ⟨h.live.lt hheap, h.isDir, hlnk, (h.storedEntry name).trans hentry, hfresh⟩
  exact ⟨h.coherent.allocated hu, allocated_tree hheap, hu.live_new hheap h.live⟩

theorem UpToDate.dentryDelete (h : s.UpToDate curr p dir copy)
    (hc : c ∈ (s.dentries curr).children) :
    ∃ copy', (s.dentryDelete c).UpToDate curr p dir copy' := by
  have hheap := h.coherent.heap
  have hn := sameNames_dentryDelete hheap hc
  refine ⟨{ copy with dentryList := copy.dentryList.erase c }, ?_⟩
  constructor
  · exact h.coherent.dentryDelete hc
  · exact h.live.dentryDelete hheap hc (hheap.lt curr c hc).1
  · rw [hn.type]
    exact h.isDir
  · rw [hn.stored, hn.uuid]
    exact h.stored
  · rw [hn.uuid, h.coherent.dentryDelete_copies hc, h.copied]
    rfl
  · exact h.dirnode
  · exact h.timestamp

theorem mem_of_dLookup {child : Nat} (h : s.dLookup curr name = some child) :
    child ∈ (s.dentries curr).children ∧ (s.dentries child).name = name := by
  refine ⟨List.mem_of_find?_eq_some h, ?_⟩
  simpa using List.find?_some h

theorem UpToDate.dentryOf (h : s.UpToDate curr p dir copy) {type : DirentType} {uuid : Uuid}
    (hentry : dir.dirnode.entries name = some (type, uuid)) (hlnk : type ≠ .lnk)
    {child : Option Nat} (hchild : s.dLookup curr name = child) :
    s.IsEntry p name type uuid (s.dentryOf curr uuid name type child) := by
  have hheap := h.coherent.heap
  cases child with
  | none =>
    refine h.alloc hentry hlnk fun c hc hname => ?_
    have hnone := List.find?_eq_none.mp hchild c hc
    simp [hname] at hnone
  | some child =>
    obtain ⟨hc, hname⟩ := mem_of_dLookup hchild
    simp only [Vfs.dentryOf]
    split
    next huuid =>
      -- the entry still has the uuid of the child, and therefore its type
      subst huuid
      have hstored : s.storedEntry curr (s.dentries child).name =
          some (type, (s.dentries child).linkUuid) := by
        rw [h.storedEntry, hname, hentry]
      have htype := h.coherent.typed curr p h.live child hc type hstored
      have hlink : s.Linked curr child := by
        rw [htype] at hstored
        exact hstored
      have hshape := sameShape_unmarked s child
      refine ⟨h.coherent.unmarked hc hlink, hshape.tree, ?_⟩
      have hlive := Live.child h.live hc hlink
      rw [← htype, hname] at hlive
      exact hshape.live hlive
    next huuid =>
      obtain ⟨copy', hdeleted⟩ := h.dentryDelete hc
      have hn := sameNames_dentryDelete hheap hc
      obtain ⟨hcoherent, htree, hlive⟩ := hdeleted.alloc hentry hlnk (by
        intro c hc' hname'
        obtain ⟨hc', hne⟩ := (mem_dentryDelete_children hheap hc).mp hc'
        rw [hn.name] at hname'
        exact hne (hheap.names curr c hc' child hc (hname'.trans hname.symm)))
      exact ⟨hcoherent, htree.trans hn.tree, hlive⟩

theorem UpToDate.lookupDirnode (h : s.UpToDate curr p dir copy)
    (hname : Name.ofBytes? bytes = some name) {child : Option Nat}
    (hchild : s.dLookup curr name = child) :
    s.StepAgrees p bytes (s.lookupDirnode curr name child) := by
  have hentryAt := h.entryAt hname
  unfold Vfs.lookupDirnode
  rw [h.findByName]
  cases hentry : dir.dirnode.entries name with
  | none =>
    rw [hentry] at hentryAt
    exact ⟨rfl, hentryAt⟩
  | some e =>
    obtain ⟨type, uuid⟩ := e
    rw [hentry] at hentryAt
    have hfound : type ≠ .lnk → s.StepAgrees p bytes
        ((s.dentryOf curr uuid name type child).1, .dentry (s.dentryOf curr uuid name type child).2) := by
      intro hlnk
      obtain ⟨hcoherent, htree, hlive⟩ := h.dentryOf hentry hlnk hchild
      exact ⟨hcoherent, htree, _, hentryAt, hlnk, hlive⟩
    cases type with
    | lnk => exact ⟨rfl, name, uuid, hentryAt, h.getLink uuid⟩
    | reg | dir => exact hfound (by simp)

theorem UpToDate.lookupNext (h : s.UpToDate curr p dir copy) (bytes : Bytes) :
    s.StepAgrees p bytes (s.lookupNext curr bytes) := by
  unfold Vfs.lookupNext
  cases hname : Name.ofBytes? bytes with
  | none =>
    refine ⟨rfl, ?_⟩
    unfold Tree.entryAt
    rw [hname]
    rfl
  | some name =>
    dsimp only
    cases hchild : s.dLookup curr name with
    | none => exact h.lookupDirnode hname hchild
    | some child =>
      dsimp only
      split
      · exact h.lookupDirnode hname hchild
      next hmark =>
        obtain ⟨hc, hchildName⟩ := mem_of_dLookup hchild
        have hlink := h.coherent.linked_of_visited h.live h.stored h.copied h.timestamp hc
          (by simpa using hmark)
        refine ⟨h.coherent, rfl, _, ?_, h.coherent.heap.notLink curr child hc,
          .child h.live hc hlink⟩
        unfold Vfs.Linked at hlink
        rw [h.storedEntry, hchildName] at hlink
        rw [h.entryAt hname, hlink, hchildName]
        rfl

end Vfs

open Recursion

/-- The walk of the code and the walk without a cache both do not return, both fail, or
lead to the same place. -/
def Agrees (t : Tree) : Option (Vfs × Option Nat) → Option (Option Place) → Prop
  | none, none => True
  | some (s, none), some none => s.Coherent ∧ s.tree = t
  | some (s, some id), some (some p) => s.Coherent ∧ s.tree = t ∧ s.Live id p
  | _, _ => False

section Walks

variable {t : Tree} {s : Vfs} {curr : Nat} {p : Place}

theorem walkPath_agrees {follow : Nat → Bytes → Vfs → Option (Vfs × Option Nat)}
    {answer : Place × Bytes → Option (Option Place)}
    (hfollow : ∀ (s : Vfs) id p target, s.Coherent → s.tree = t → s.Live id p →
      Agrees t (follow id target s) (answer (p, target)))
    (type : WalkType) (cs : List Component) (h : s.Coherent) (ht : s.tree = t)
    (hl : s.Live curr p) :
    Agrees t (walkPath follow type cs curr s)
      ((t.walk Component.goesUp type cs p).run answer) := by
  induction cs generalizing s curr p with
  | nil => exact ⟨h, ht, hl⟩
  | cons c cs ih =>
    have hobject := hl.object h.heap
    rw [ht] at hobject
    unfold walkPath Tree.walk
    split
    · exact ih h ht hl
    split
    · -- the parent of a live dentry is live, and only the root has none
      cases hl with
      | root =>
        rw [h.heap.rootParent]
        exact ⟨h, ht⟩
      | @child d c p hd hc hlink =>
        rw [h.heap.parent d _ hc]
        exact ih h ht hd
    rw [hobject]
    split
    · exact ⟨h, ht⟩
    next hdir =>
      rw [not_not] at hdir
      split
      · exact ⟨h, ht, hl⟩
      obtain ⟨hstored, hnone⟩ | ⟨dir, copy, s', hsome, hcoherent, hshape, hstored, hcopied, hdirnode,
          htime, -, -⟩ := h.dentryRevalidate hl hdir
      · -- the directory is not stored
        have hentry : t.entryAt p c.name = none := by
          rw [← ht]
          unfold Tree.entryAt
          rw [Vfs.dirAt_tree h.heap hl, hstored]
          cases Name.ofBytes? c.name <;> rfl
        rw [hnone, hentry]
        exact ⟨h, ht⟩
      · have hup : s'.UpToDate curr p dir copy :=
          ⟨hcoherent, hshape.live hl, (hshape.type curr).trans hdir,
            by rw [hshape.stored, hshape.uuid]; exact hstored,
            by rw [hshape.uuid]; exact hcopied, hdirnode, htime⟩
        have ht' : s'.tree = t := hshape.tree.trans ht
        have hstep := hup.lookupNext c.name
        rw [hsome]
        dsimp only
        cases hnext : s'.lookupNext curr c.name with
        | mk s'' next =>
          rw [hnext] at hstep
          cases next with
          | missing =>
            obtain ⟨rfl, hentry⟩ := hstep
            rw [ht'] at hentry
            rw [hentry]
            exact ⟨hcoherent, ht'⟩
          | dentry id =>
            obtain ⟨hcoherent'', htree'', ⟨name, type, uuid⟩, hentry, hlnk, hlive⟩ := hstep
            rw [ht'] at hentry htree''
            rw [hentry]
            cases type with
            | lnk => exact absurd rfl hlnk
            | reg | dir => exact ih hcoherent'' htree'' hlive
          | link target =>
            obtain ⟨rfl, name, uuid, hentry, rfl⟩ := hstep
            rw [ht'] at hentry
            rw [hentry, ht']
            have hcall := hfollow s'' curr p (t.linkAt p uuid) hcoherent ht' hup.live
            simp only [Proc.run]
            generalize follow curr (t.linkAt p uuid) s'' = walked at hcall
            generalize answer (p, t.linkAt p uuid) = place at hcall
            -- the answers are of one kind, or they would not agree
            rcases walked with _ | ⟨_, _ | _⟩ <;> rcases place with _ | _ | _ <;>
              first
              | exact trivial
              | exact hcall.elim
              | exact hcall
              | exact ih hcall.1 hcall.2.1 hcall.2.2

theorem dentryFollowLink_agrees (depth : Nat) (target : Bytes) (h : s.Coherent) (ht : s.tree = t)
    (hl : s.Live curr p) :
    Agrees t (dentryFollowLink depth curr target s)
      (eval (t.followLink Component.goesUp) depth (p, target)) := by
  induction depth generalizing s curr p target with
  | zero => exact trivial
  | succ depth ih =>
    exact walkPath_agrees (fun s id p target h ht hl => ih target h ht hl) .normal _ h ht hl

/-- A lookup from a coherent cache leads where the stored directories do. -/
theorem dentryLookup_agrees (h : s.Coherent) (depth : Nat) (type : WalkType) (path : Bytes) :
    Agrees s.tree (dentryLookup depth type path s)
      (s.tree.resolve Component.goesUp depth type path) :=
  walkPath_agrees (fun _ _ _ target h ht hl => dentryFollowLink_agrees depth target h ht hl) type _
    h rfl .root

/-- What a list of lookups finds, if all of them return. -/
def lookups (depth : Nat) (s : Vfs) :
    List (WalkType × Bytes) → Option (List (Option (DirentType × Uuid)))
  | [] => some []
  | call :: calls => do
    let (s, id) ← dentryLookup depth call.1 call.2 s
    let found := id.map fun i => ((s.dentries i).direntType, (s.dentries i).linkUuid)
    some (found :: (← lookups depth s calls))

/-- Whatever was looked up before, a lookup finds what is stored. -/
theorem lookups_resolve (depth : Nat) (calls : List (WalkType × Bytes)) :
    lookups depth (dcacheInitRoot t.rootUuid t.stored) calls = calls.mapM fun call =>
      (t.resolve Component.goesUp depth call.1 call.2).map (Option.map (·.object t.rootUuid)) := by
  suffices h : ∀ s : Vfs, s.Coherent → s.tree = t → lookups depth s calls = _ from
    h _ (Vfs.coherent_dcacheInitRoot _ _) rfl
  induction calls with
  | nil => exact fun _ _ _ => rfl
  | cons call calls ih =>
    rintro s h rfl
    have hagrees := dentryLookup_agrees h depth call.1 call.2
    rw [List.mapM_cons, lookups]
    revert hagrees
    rcases dentryLookup depth call.1 call.2 s with _ | ⟨s', _ | i⟩ <;>
      rcases s.tree.resolve Component.goesUp depth call.1 call.2 with _ | _ | p <;>
      intro hagrees <;> try exact hagrees.elim
    · rfl
    · simp [ih s' hagrees.1 hagrees.2]
    · obtain ⟨h', ht, hl⟩ := hagrees
      have hobject := ht ▸ hl.object h'.heap
      simp [ih s' h' ht, ← hobject]

end Walks

end Nexus.Dcache
