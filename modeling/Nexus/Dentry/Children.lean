import Nexus.Dentry.Coherent

/-!
# Dentries that are allocated and deleted

A new dentry of a live directory is live if it is an entry of the stored directory,
and it has no children.  A dentry that is deleted takes what is below it out of
reach.
-/

open Function List

namespace Nexus.Dcache.Vfs

variable {s : Vfs} {d c id parent : Nat} {p q : Place} {uuid : Uuid} {name : Name}
  {type : DirentType}

/-! ## Allocation -/

/-- The state after `d_alloc`. -/
def allocated (s : Vfs) (parent : Nat) (uuid : Uuid) (name : Name) (type : DirentType) : Vfs :=
  (s.dAlloc parent uuid name type).1

theorem allocated_new : (s.allocated parent uuid name type).dentries s.next =
    ⟨type, false, name, uuid, some parent, []⟩ :=
  update_self _ _ _

theorem allocated_old {x : Nat} (hx : x ≠ s.next) :
    (s.allocated parent uuid name type).dentries x =
      if x = parent then
        { s.dentries x with children := (s.dentries x).children ++ [s.next] }
      else s.dentries x := by
  simp only [allocated, dAlloc, modifyDentry]
  rw [update_of_ne hx, update_apply]
  split
  next hxp => rw [hxp]
  · rfl

theorem mem_allocated_children {x : Nat} :
    c ∈ ((s.allocated parent uuid name type).dentries x).children ↔
      x ≠ s.next ∧ (c ∈ (s.dentries x).children ∨ c = s.next ∧ x = parent) := by
  by_cases hx : x = s.next
  · subst hx
    simp [allocated_new]
  · rw [allocated_old hx]
    by_cases hxp : x = parent
    · subst hxp
      simp [hx]
    · simp [hx, hxp]

section Fields

variable {x : Nat} (hx : x ≠ s.next)

include hx

theorem allocated_type :
    ((s.allocated parent uuid name type).dentries x).direntType = (s.dentries x).direntType := by
  rw [allocated_old hx]
  split <;> rfl

theorem allocated_parentChanged :
    ((s.allocated parent uuid name type).dentries x).parentChanged =
      (s.dentries x).parentChanged := by
  rw [allocated_old hx]
  split <;> rfl

theorem allocated_name :
    ((s.allocated parent uuid name type).dentries x).name = (s.dentries x).name := by
  rw [allocated_old hx]
  split <;> rfl

theorem allocated_uuid :
    ((s.allocated parent uuid name type).dentries x).linkUuid = (s.dentries x).linkUuid := by
  rw [allocated_old hx]
  split <;> rfl

theorem allocated_parent :
    ((s.allocated parent uuid name type).dentries x).parent = (s.dentries x).parent := by
  rw [allocated_old hx]
  split <;> rfl

theorem allocated_storedEntry (n : Name) :
    (s.allocated parent uuid name type).storedEntry x n = s.storedEntry x n := by
  unfold storedEntry
  rw [allocated_uuid hx]
  rfl

theorem allocated_linked (hc : c ≠ s.next) :
    (s.allocated parent uuid name type).Linked x c ↔ s.Linked x c := by
  unfold Linked
  rw [allocated_storedEntry hx, allocated_type hc, allocated_name hc, allocated_uuid hc]

end Fields

theorem allocated_tree (h : s.Heap) : (s.allocated parent uuid name type).tree = s.tree := by
  unfold tree
  rw [allocated_uuid h.rootLt.ne]
  rfl

/-- A name that a directory has, and none of its cached children. -/
structure Uncached (s : Vfs) (parent : Nat) (uuid : Uuid) (name : Name) (type : DirentType) :
    Prop where
  lt : parent < s.next
  dir : (s.dentries parent).direntType = .dir
  notLink : type ≠ .lnk
  entry : s.storedEntry parent name = some (type, uuid)
  fresh : ∀ c ∈ (s.dentries parent).children, (s.dentries c).name ≠ name

theorem Uncached.linked (hu : s.Uncached parent uuid name type) :
    (s.allocated parent uuid name type).Linked parent s.next := by
  unfold Linked
  rw [allocated_storedEntry hu.lt.ne, allocated_new]
  exact hu.entry

/-- A new child needs a directory above it, and a name that no other child has. -/
theorem Heap.allocated (h : s.Heap) (hlt : parent < s.next)
    (hdir : (s.dentries parent).direntType = .dir) (hlnk : type ≠ .lnk)
    (hfresh : ∀ c ∈ (s.dentries parent).children, (s.dentries c).name ≠ name) :
    (s.allocated parent uuid name type).Heap := by
  have hold : ∀ {x y}, y ∈ (s.dentries x).children → y ≠ s.next := fun hy => (h.lt _ _ hy).2.ne
  constructor
  case rootParent => rw [allocated_parent h.rootLt.ne, h.rootParent]
  case rootType => rw [allocated_type h.rootLt.ne, h.rootType]
  case rootLt => exact Nat.lt_succ_of_lt h.rootLt
  case parent =>
    intro x y hy
    obtain ⟨hx, hy | ⟨rfl, rfl⟩⟩ := mem_allocated_children.mp hy
    · rw [allocated_parent (hold hy), h.parent x y hy]
    · rw [allocated_new]
  case lt =>
    intro x y hy
    obtain ⟨hx, hy | ⟨rfl, rfl⟩⟩ := mem_allocated_children.mp hy
    · exact ⟨(h.lt x y hy).1, Nat.lt_succ_of_lt (h.lt x y hy).2⟩
    · exact ⟨hlt, Nat.lt_succ_self _⟩
  case dir =>
    intro x y hy
    obtain ⟨hx, hy | ⟨rfl, rfl⟩⟩ := mem_allocated_children.mp hy
    · rw [allocated_type hx, h.dir x y hy]
    · rw [allocated_type hx, hdir]
  case notLink =>
    intro x y hy
    obtain ⟨hx, hy | ⟨rfl, rfl⟩⟩ := mem_allocated_children.mp hy
    · rw [allocated_type (hold hy)]
      exact h.notLink x y hy
    · rw [allocated_new]
      exact hlnk
  case names =>
    intro x y hy y' hy' hname
    obtain ⟨hx, hyOld | ⟨rfl, hxp⟩⟩ := mem_allocated_children.mp hy
    · obtain ⟨-, hyOld' | ⟨rfl, hxp⟩⟩ := mem_allocated_children.mp hy'
      · rw [allocated_name (hold hyOld), allocated_name (hold hyOld')] at hname
        exact h.names x y hyOld y' hyOld' hname
      · rw [allocated_name (hold hyOld), allocated_new] at hname
        exact absurd hname (hfresh y (hxp ▸ hyOld))
    · obtain ⟨-, hyOld' | ⟨rfl, -⟩⟩ := mem_allocated_children.mp hy'
      · rw [allocated_name (hold hyOld'), allocated_new] at hname
        exact absurd hname.symm (hfresh y' (hxp ▸ hyOld'))
      · rfl
  case nodup =>
    intro x
    by_cases hx : x = s.next
    · subst hx
      rw [allocated_new]
      exact nodup_nil
    · rw [allocated_old hx]
      split
      · refine nodup_append.mpr ⟨h.nodup x, nodup_singleton _, ?_⟩
        intro y hy z hz
        rw [mem_singleton.mp hz]
        exact hold hy
      · exact h.nodup x

theorem Uncached.heap (hu : s.Uncached parent uuid name type) (h : s.Heap) :
    (s.allocated parent uuid name type).Heap :=
  h.allocated hu.lt hu.dir hu.notLink hu.fresh

theorem live_of_allocated {x : Nat} (hx : x ≠ s.next)
(hl : (s.allocated parent uuid name type).Live x p) : s.Live x p := by
  induction hl with
  | root => exact .root
  | @child d c p hd hc hlink ih =>
    obtain ⟨hdne, hc' | ⟨rfl, -⟩⟩ := mem_allocated_children.mp hc
    · rw [allocated_name hx, allocated_type hx, allocated_uuid hx]
      exact .child (ih hdne) hc' ((allocated_linked hdne hx).mp hlink)
    · exact absurd rfl hx

theorem Live.allocated (h : s.Heap) {x : Nat} (hl : s.Live x p) : (s.allocated parent uuid name type).Live x p := by
  induction hl with
  | root => exact .root
  | @child d c p hd hc hlink ih =>
    have hdne := ((h.lt d c hc).1.trans (h.lt d c hc).2).ne
    have hcne := (h.lt d c hc).2.ne
    have hchild := Live.child ih (mem_allocated_children.mpr ⟨hdne, .inl hc⟩)
      ((allocated_linked hdne hcne).mpr hlink)
    rwa [allocated_name hcne, allocated_type hcne, allocated_uuid hcne] at hchild

theorem Uncached.live_new (hu : s.Uncached parent uuid name type) (h : s.Heap)
    (hl : s.Live parent p) :
    (s.allocated parent uuid name type).Live s.next ((name, type, uuid) :: p) := by
  have hchild := Live.child (hl.allocated h)
    (mem_allocated_children.mpr ⟨hu.lt.ne, .inr ⟨rfl, rfl⟩⟩) hu.linked
  rwa [allocated_new] at hchild

/-- A directory that gets a dentry for one of its entries stays coherent. -/
theorem Coherent.allocated (h : s.Coherent) (hu : s.Uncached parent uuid name type) :
    (s.allocated parent uuid name type).Coherent := by
  have hfollows : Follows s (s.allocated parent uuid name type) := by
    intro x q hx y hy
    obtain ⟨hxne, hy | ⟨rfl, rfl⟩⟩ := mem_allocated_children.mp hy
    · have hyne := (h.heap.lt x y hy).2.ne
      refine .inr ⟨live_of_allocated hxne hx, hy, ?_, allocated_name hyne, allocated_type hyne,
        allocated_uuid hyne, (allocated_parentChanged hyne).symm.trans, fun hwill _ => ?_⟩
      · rw [allocated_uuid hxne]
        rfl
      · unfold WillMark
        rw [allocated_uuid hxne]
        exact hwill
    · exact .inl hu.linked
  constructor
  case heap => exact hu.heap h.heap
  case synced => exact h.synced
  case aliases =>
    intro u copy hcopy x hx
    obtain ⟨huuid, hlt⟩ := h.aliases u copy hcopy x hx
    exact ⟨(allocated_uuid hlt.ne).trans huuid, Nat.lt_succ_of_lt hlt⟩
  case newest =>
    intro hunique x q hx hdir copy hcopy hmem
    rw [allocated_tree h.heap] at hunique
    have hlt := (h.aliases _ copy hcopy x hmem).2.ne
    rw [allocated_uuid hlt] at hcopy
    rw [allocated_type hlt] at hdir
    exact h.newest hunique x q (live_of_allocated hlt hx) hdir copy hcopy hmem
  case linked => exact h.linked_of_follows hfollows
  case typed => exact h.typed_of_follows hfollows
  case places => exact h.places_of_follows hfollows (allocated_tree h.heap)

/-! ## Deletion -/

section Delete

variable {x : Nat}

theorem dentryDelete_dentries (h : s.Heap) (hc : c ∈ (s.dentries parent).children) :
    (s.dentryDelete c).dentries x =
      if x = c then { s.dentries x with parent := none, parentChanged := false }
      else if x = parent then
        { s.dentries x with children := (s.dentries x).children.erase c }
      else s.dentries x := by
  have hne : c ≠ parent := (h.lt parent c hc).1.ne'
  unfold dentryDelete
  rw [if_neg (h.rootNotChild hc), h.parent parent c hc]
  simp only [dIput, modifyCopy, modifyDentry, update_apply, if_neg hne]
  split
  next hxc => rw [hxc]
  split
  next hxp => rw [hxp]
  · rfl

theorem dentryDelete_copies (h : s.Heap) (hc : c ∈ (s.dentries parent).children) :
    (s.dentryDelete c).copies = update s.copies (s.dentries c).linkUuid
      ((s.copies (s.dentries c).linkUuid).map fun copy =>
        { copy with dentryList := copy.dentryList.erase c }) := by
  have hne : c ≠ parent := (h.lt parent c hc).1.ne'
  unfold dentryDelete
  rw [if_neg (h.rootNotChild hc), h.parent parent c hc]
  simp only [dIput, modifyCopy, modifyDentry, update_self, update_of_ne hne]

variable (h : s.Heap) (hc : c ∈ (s.dentries parent).children)

include h hc

theorem sameNames_dentryDelete : SameNames s (s.dentryDelete c) := by
  constructor
  case stored | next =>
    unfold dentryDelete
    rw [if_neg (h.rootNotChild hc), h.parent parent c hc]
    rfl
  all_goals
    intro x
    rw [dentryDelete_dentries h hc]
    split
    · rfl
    · split <;> rfl

theorem dentryDelete_parent (hx : x ≠ c) : ((s.dentryDelete c).dentries x).parent =
    (s.dentries x).parent := by
  rw [dentryDelete_dentries h hc, if_neg hx]
  split <;> rfl

theorem dentryDelete_parentChanged (hx : x ≠ c) : ((s.dentryDelete c).dentries x).parentChanged =
    (s.dentries x).parentChanged := by
  rw [dentryDelete_dentries h hc, if_neg hx]
  split <;> rfl

theorem mem_dentryDelete_children {y : Nat} :
    y ∈ ((s.dentryDelete c).dentries x).children ↔ y ∈ (s.dentries x).children ∧ y ≠ c := by
  -- the deleted dentry is a child of no other directory
  have hother : x ≠ parent → c ∉ (s.dentries x).children := by
    intro hx hcx
    have hparent := (h.parent x c hcx).symm.trans (h.parent parent c hc)
    exact hx (Option.some.inj hparent)
  have hkeep : x ≠ parent →
      (y ∈ (s.dentries x).children ↔ y ∈ (s.dentries x).children ∧ y ≠ c) :=
    fun hx => ⟨fun hy => ⟨hy, fun hyc => hother hx (hyc ▸ hy)⟩, And.left⟩
  rw [dentryDelete_dentries h hc]
  split
  next hxc => exact hkeep (hxc ▸ (h.lt parent c hc).1.ne')
  split
  next hxp =>
    rw [(h.nodup x).mem_erase_iff]
    exact And.comm
  next hxp => exact hkeep hxp

theorem live_of_dentryDelete (hl : (s.dentryDelete c).Live x p) : s.Live x p ∧ x ≠ c := by
  have hn := sameNames_dentryDelete h hc
  induction hl with
  | root => exact ⟨.root, (h.rootNotChild hc).symm⟩
  | @child d y p hd hy hlink ih =>
    obtain ⟨hy, hne⟩ := (mem_dentryDelete_children h hc).mp hy
    refine ⟨?_, hne⟩
    rw [hn.name, hn.type, hn.uuid]
    exact .child ih.1 hy (hn.linked.mp hlink)

theorem Live.dentryDelete (hl : s.Live x p) (hx : x < c) : (s.dentryDelete c).Live x p := by
  have hn := sameNames_dentryDelete h hc
  induction hl with
  | root => exact .root
  | @child d y p hd hy hlink ih =>
    have hchild := Live.child (ih ((h.lt d y hy).1.trans hx))
      ((mem_dentryDelete_children h hc).mpr ⟨hy, hx.ne⟩) (hn.linked.mpr hlink)
    rwa [hn.name, hn.type, hn.uuid] at hchild

theorem Heap.dentryDelete : (s.dentryDelete c).Heap := by
  have hn := sameNames_dentryDelete h hc
  constructor
  case rootParent => rw [dentryDelete_parent h hc (h.rootNotChild hc).symm, h.rootParent]
  case rootType => rw [hn.type, h.rootType]
  case rootLt =>
    rw [hn.next]
    exact h.rootLt
  case parent =>
    intro x y hy
    obtain ⟨hy, hne⟩ := (mem_dentryDelete_children h hc).mp hy
    rw [dentryDelete_parent h hc hne, h.parent x y hy]
  case lt =>
    intro x y hy
    rw [hn.next]
    exact h.lt x y ((mem_dentryDelete_children h hc).mp hy).1
  case dir =>
    intro x y hy
    rw [hn.type]
    exact h.dir x y ((mem_dentryDelete_children h hc).mp hy).1
  case notLink =>
    intro x y hy
    rw [hn.type]
    exact h.notLink x y ((mem_dentryDelete_children h hc).mp hy).1
  case names =>
    intro x y hy y' hy' hname
    rw [hn.name, hn.name] at hname
    exact h.names x y ((mem_dentryDelete_children h hc).mp hy).1 y'
      ((mem_dentryDelete_children h hc).mp hy').1 hname
  case nodup =>
    intro x
    rw [dentryDelete_dentries h hc]
    split
    · exact h.nodup x
    · split
      · exact (h.nodup x).erase c
      · exact h.nodup x

end Delete

theorem Coherent.dentryDelete_copies (h : s.Coherent) (hc : c ∈ (s.dentries parent).children)
    (uuid : Uuid) : (s.dentryDelete c).copies uuid = (s.copies uuid).map fun copy =>
      { copy with dentryList := copy.dentryList.erase c } := by
  rw [Vfs.dentryDelete_copies h.heap hc]
  by_cases huuid : uuid = (s.dentries c).linkUuid
  · rw [huuid, update_self]
  · rw [update_of_ne huuid]
    cases hcopy : s.copies uuid with
    | none => rfl
    | some copy =>
      have hmem : c ∉ copy.dentryList := fun hmem => huuid (h.aliases uuid copy hcopy c hmem).1.symm
      rw [Option.map_some, erase_of_not_mem hmem]

theorem Coherent.dentryDelete (h : s.Coherent) (hc : c ∈ (s.dentries parent).children) :
    (s.dentryDelete c).Coherent := by
  have hn := sameNames_dentryDelete h.heap hc
  have hfollows : Follows s (s.dentryDelete c) := by
    intro x q hx y hy
    obtain ⟨hx, hxne⟩ := live_of_dentryDelete h.heap hc hx
    obtain ⟨hy, hyne⟩ := (mem_dentryDelete_children h.heap hc).mp hy
    refine .inr ⟨hx, hy, ?_, hn.name y, hn.type y, hn.uuid y, (dentryDelete_parentChanged h.heap hc hyne).symm.trans, ?_⟩
    · rw [hn.stored, hn.uuid]
    · rintro ⟨copy, dir, hcopy, hvalid, hmem, hdir, hlt⟩ -
      refine ⟨{ copy with dentryList := copy.dentryList.erase c }, dir, ?_, hvalid, ?_, ?_, hlt⟩
      · rw [hn.uuid, h.dentryDelete_copies hc, hcopy]
        rfl
      · exact (mem_erase_of_ne hxne).mpr hmem
      · rw [hn.stored, hn.uuid]
        exact hdir
  constructor
  case heap => exact h.heap.dentryDelete hc
  case synced =>
    intro u copy hcopy hvalid
    rw [h.dentryDelete_copies hc] at hcopy
    obtain ⟨copy₀, hcopy₀, rfl⟩ := Option.map_eq_some_iff.mp hcopy
    rw [hn.stored]
    exact h.synced u copy₀ hcopy₀ hvalid
  case aliases =>
    intro u copy hcopy x hx
    rw [h.dentryDelete_copies hc] at hcopy
    obtain ⟨copy₀, hcopy₀, rfl⟩ := Option.map_eq_some_iff.mp hcopy
    rw [hn.uuid, hn.next]
    exact h.aliases u copy₀ hcopy₀ x (mem_of_mem_erase hx)
  case newest =>
    intro hunique x q hx hdir copy hcopy hmem
    rw [hn.tree] at hunique
    rw [hn.type] at hdir
    rw [hn.uuid, h.dentryDelete_copies hc] at hcopy
    obtain ⟨copy₀, hcopy₀, rfl⟩ := Option.map_eq_some_iff.mp hcopy
    obtain ⟨hxOld, hne⟩ := live_of_dentryDelete h.heap hc hx
    have hhead := h.newest hunique x q hxOld hdir copy₀ hcopy₀ (mem_of_mem_erase hmem)
    obtain ⟨rest, hlist⟩ := head?_eq_some_iff.mp hhead
    simp only [hlist]
    rw [erase_cons_tail (by simpa using hne)]
    rfl
  case linked => exact h.linked_of_follows hfollows
  case typed => exact h.typed_of_follows hfollows
  case places => exact h.places_of_follows hfollows hn.tree

/-! ## Marks -/

/-- The mark of a child is removed. -/
def unmarked (s : Vfs) (c : Nat) : Vfs :=
  s.modifyDentry c fun d => { d with parentChanged := false }

theorem unmarked_dentries (x : Nat) : (s.unmarked c).dentries x =
    if x = c then { s.dentries x with parentChanged := false } else s.dentries x := by
  simp only [unmarked, modifyDentry, update_apply]
  split
  next hx => rw [hx]
  · rfl

theorem sameShape_unmarked (s : Vfs) (c : Nat) : SameShape s (s.unmarked c) := by
  refine ⟨⟨rfl, rfl, ?_, ?_, ?_⟩, ?_, ?_⟩ <;>
  · intro x
    rw [unmarked_dentries]
    split <;> rfl

theorem Coherent.unmarked (h : s.Coherent) (hc : c ∈ (s.dentries parent).children)
    (hlink : s.Linked parent c) : (s.unmarked c).Coherent := by
  have hs := sameShape_unmarked s c
  have hfollows : Follows s (s.unmarked c) := by
    intro x q hx y hy
    rw [hs.children] at hy
    by_cases hyc : y = c
    · subst hyc
      cases (h.heap.parent x y hy).symm.trans (h.heap.parent parent y hc)
      exact .inl (hs.linked.mpr hlink)
    · refine .inr ⟨hs.live_iff.mp hx, hs.kept hy (fun hmark => ?_) fun hwill _ => ?_⟩
      · rwa [unmarked_dentries, if_neg hyc] at hmark
      · unfold WillMark
        rw [hs.uuid]
        exact hwill
  constructor
  case heap => exact hs.heap h.heap
  case synced => exact h.synced
  case aliases =>
    intro u copy hcopy x hx
    rw [hs.uuid]
    exact h.aliases u copy hcopy x hx
  case newest =>
    intro hunique x q hx hdir copy hcopy hmem
    rw [hs.tree] at hunique
    rw [hs.type] at hdir
    rw [hs.uuid] at hcopy
    exact h.newest hunique x q (hs.live_iff.mp hx) hdir copy hcopy hmem
  case linked => exact h.linked_of_follows hfollows
  case typed => exact h.typed_of_follows hfollows
  case places => exact h.places_of_follows hfollows hs.tree

end Nexus.Dcache.Vfs
