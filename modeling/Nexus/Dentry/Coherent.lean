import Nexus.Dentry.Resolve

/-!
# When the dentry cache can be trusted

A dentry is live if every dentry on its way from the root still is an entry of the
stored directory above it.  The cache is coherent if every child of a live dentry
that a walk would use without looking is live, or will be marked before the walk
looks at it.
-/

open Function

namespace Nexus.Dcache

/-! ## Places -/

/-- A place that the stored directories have. -/
inductive Tree.Placed (t : Tree) : Place → Prop where
  | root : Placed t []
  | entry {p : Place} {d : Contents} {name : Name} {type : DirentType} {uuid : Uuid}
      (hp : Placed t p) (hd : t.dirAt p = some d) (he : d.entries name = some (type, uuid))
      (hlnk : type ≠ .lnk) : Placed t ((name, type, uuid) :: p)

/-- No directory is at two places. -/
def Tree.UniquePlaces (t : Tree) : Prop :=
  ∀ p q, t.Placed p → t.Placed q → (p.object t.rootUuid).1 = .dir →
    p.object t.rootUuid = q.object t.rootUuid → p = q

namespace Vfs

/-- The volume as it is stored. -/
def tree (s : Vfs) : Tree := ⟨(s.dentries rootDentry).linkUuid, s.stored⟩

/-- The entry of a name in the stored directory of a dentry. -/
def storedEntry (s : Vfs) (id : Nat) (name : Name) : Option (DirentType × Uuid) :=
  (s.stored (s.dentries id).linkUuid).bind fun d => d.dirnode.entries name

/-- The child is an entry of the stored directory of its parent. -/
def Linked (s : Vfs) (d c : Nat) : Prop :=
  s.storedEntry d (s.dentries c).name = some ((s.dentries c).direntType, (s.dentries c).linkUuid)

/-- The dentry and those above it are linked. -/
inductive Live (s : Vfs) : Nat → Place → Prop where
  | root : Live s rootDentry []
  | child {d c : Nat} {p : Place} (hd : Live s d p) (hc : c ∈ (s.dentries d).children)
      (hl : s.Linked d c) :
      Live s c (((s.dentries c).name, (s.dentries c).direntType, (s.dentries c).linkUuid) :: p)

/-- The next visit of the dentry finds the directory changed, and marks its children. -/
def WillMark (s : Vfs) (id : Nat) : Prop :=
  ∃ c d, s.copies (s.dentries id).linkUuid = some c ∧ c.isInvalid = false ∧
    id ∈ c.dentryList ∧ s.stored (s.dentries id).linkUuid = some d ∧ c.timestamp < d.timestamp

/-- The dentries are what `d_alloc` and `dentry_delete` can build. -/
structure Heap (s : Vfs) : Prop where
  rootParent : (s.dentries rootDentry).parent = none
  rootType : (s.dentries rootDentry).direntType = .dir
  rootLt : rootDentry < s.next
  parent : ∀ d, ∀ c ∈ (s.dentries d).children, (s.dentries c).parent = some d
  lt : ∀ d, ∀ c ∈ (s.dentries d).children, d < c ∧ c < s.next
  dir : ∀ d, ∀ c ∈ (s.dentries d).children, (s.dentries d).direntType = .dir
  notLink : ∀ d, ∀ c ∈ (s.dentries d).children, (s.dentries c).direntType ≠ .lnk
  names : ∀ d, ∀ c ∈ (s.dentries d).children, ∀ c' ∈ (s.dentries d).children,
    (s.dentries c).name = (s.dentries c').name → c = c'
  nodup : ∀ d, (s.dentries d).children.Nodup

/-- Every cached child that a walk uses without looking is linked. -/
def AllLinked (s : Vfs) : Prop :=
  ∀ d p, s.Live d p → ∀ c ∈ (s.dentries d).children, (s.dentries c).parentChanged = false →
    (s.stored (s.dentries d).linkUuid).isSome = true → s.Linked d c

/-- The cache leads where the stored directories do. -/
structure Coherent (s : Vfs) : Prop where
  heap : s.Heap
  /-- A valid copy with the stored timestamp is what is stored. -/
  synced : ∀ uuid c, s.copies uuid = some c → c.isInvalid = false →
    ∃ d, s.stored uuid = some d ∧ c.timestamp ≤ d.timestamp ∧
      (c.timestamp = d.timestamp → c.dirnode = d.dirnode)
  aliases : ∀ uuid c, s.copies uuid = some c → ∀ id ∈ c.dentryList,
    (s.dentries id).linkUuid = uuid ∧ id < s.next
  /-- `metadata_get_dentry` of the copy of a live directory is its live dentry. -/
  newest : s.tree.UniquePlaces → ∀ id p, s.Live id p → (s.dentries id).direntType = .dir →
    ∀ c, s.copies (s.dentries id).linkUuid = some c → id ∈ c.dentryList →
      c.dentryList.head? = some id
  linked : ∀ d p, s.Live d p → ∀ c ∈ (s.dentries d).children,
    (s.dentries c).parentChanged = false →
      (s.stored (s.dentries d).linkUuid).isSome = true → s.Linked d c ∨ s.WillMark d
  /-- An entry with the uuid of a cached child has its type. -/
  typed : ∀ d p, s.Live d p → ∀ c ∈ (s.dentries d).children, ∀ type,
    s.storedEntry d (s.dentries c).name = some (type, (s.dentries c).linkUuid) →
      type = (s.dentries c).direntType
  places : s.tree.UniquePlaces ∨ s.AllLinked

variable {s s' : Vfs} {d c id : Nat} {p q : Place}

/-! ## Live dentries -/

theorem Heap.rootNotChild (h : s.Heap) (hc : c ∈ (s.dentries d).children) : c ≠ rootDentry := by
  rintro rfl
  have hparent := h.parent d _ hc
  simp [h.rootParent] at hparent

theorem Live.lt (h : s.Heap) (hl : s.Live id p) : id < s.next := by
  cases hl with
  | root => exact h.rootLt
  | child hd hc _ => exact (h.lt _ _ hc).2

theorem Live.object (h : s.Heap) (hl : s.Live id p) :
    p.object s.tree.rootUuid = ((s.dentries id).direntType, (s.dentries id).linkUuid) := by
  cases hl with
  | root =>
    rw [h.rootType]
    rfl
  | child _ _ _ => rfl

theorem Live.unique (h : s.Heap) (hd : s.Live d p) (hc : s.Live c p) : d = c := by
  induction p generalizing d c with
  | nil =>
    cases hd
    cases hc
    rfl
  | cons e p ih =>
    cases hd with
    | @child d' _ _ hd' hdc hl =>
      generalize he : ((s.dentries d).name, (s.dentries d).direntType, (s.dentries d).linkUuid) = e
        at hc
      cases hc with
      | @child c' _ _ hc' hcc hl' =>
        cases ih hd' hc'
        exact h.names _ _ hdc _ hcc (congrArg Prod.fst he)

theorem dirAt_tree (h : s.Heap) (hl : s.Live id p) :
    s.tree.dirAt p = (s.stored (s.dentries id).linkUuid).map StoredDir.dirnode := by
  unfold Tree.dirAt
  rw [hl.object h]
  rfl

theorem Live.placed (h : s.Heap) (hl : s.Live id p) : s.tree.Placed p := by
  induction hl with
  | root => exact .root
  | @child d c p hd hc hlink ih =>
    obtain ⟨dir, hdir, hentry⟩ := Option.bind_eq_some_iff.mp hlink
    refine .entry ih ?_ hentry (h.notLink d c hc)
    rw [dirAt_tree h hd, hdir]
    rfl

theorem Live.unique_uuid (h : s.Heap) (ht : s.tree.UniquePlaces) (hd : s.Live d p)
    (hc : s.Live c q) (hdir : (s.dentries d).direntType = .dir)
    (hdir' : (s.dentries c).direntType = .dir)
    (huuid : (s.dentries d).linkUuid = (s.dentries c).linkUuid) : d = c := by
  have hpq : p = q := by
    refine ht p q (hd.placed h) (hc.placed h) ?_ ?_
    · rw [hd.object h]
      exact hdir
    · rw [hd.object h, hc.object h, hdir, hdir', huuid]
  subst hpq
  exact hd.unique h hc

/-! ## Changes that keep the way down -/

/-- What the dentries stand for is the same. -/
structure SameNames (s s' : Vfs) : Prop where
  stored : s'.stored = s.stored
  next : s'.next = s.next
  type : ∀ id, (s'.dentries id).direntType = (s.dentries id).direntType
  name : ∀ id, (s'.dentries id).name = (s.dentries id).name
  uuid : ∀ id, (s'.dentries id).linkUuid = (s.dentries id).linkUuid

namespace SameNames

variable (h : SameNames s s')
include h

theorem tree : s'.tree = s.tree := by
  unfold Vfs.tree
  rw [h.stored, h.uuid]

theorem linked : s'.Linked d c ↔ s.Linked d c := by
  unfold Vfs.Linked Vfs.storedEntry
  rw [h.stored, h.name, h.type, h.uuid, h.uuid]

end SameNames

/-- Only marks and copies differ. -/
structure SameShape (s s' : Vfs) : Prop extends SameNames s s' where
  parent : ∀ id, (s'.dentries id).parent = (s.dentries id).parent
  children : ∀ id, (s'.dentries id).children = (s.dentries id).children

namespace SameShape

section

variable (h : SameShape s s')
include h

theorem symm : SameShape s' s where
  stored := h.stored.symm
  next := h.next.symm
  type := fun id => (h.type id).symm
  name := fun id => (h.name id).symm
  uuid := fun id => (h.uuid id).symm
  parent := fun id => (h.parent id).symm
  children := fun id => (h.children id).symm

theorem trans {s'' : Vfs} (h' : SameShape s' s'') : SameShape s s'' where
  stored := h'.stored.trans h.stored
  next := h'.next.trans h.next
  type := fun id => (h'.type id).trans (h.type id)
  name := fun id => (h'.name id).trans (h.name id)
  uuid := fun id => (h'.uuid id).trans (h.uuid id)
  parent := fun id => (h'.parent id).trans (h.parent id)
  children := fun id => (h'.children id).trans (h.children id)

theorem live (hl : s.Live id p) : s'.Live id p := by
  induction hl with
  | root => exact .root
  | @child d c p hd hc hlink ih =>
    rw [← h.name, ← h.type, ← h.uuid]
    exact .child ih (by rwa [h.children]) (h.linked.mpr hlink)

theorem live_iff : s'.Live id p ↔ s.Live id p := ⟨h.symm.live, h.live⟩

theorem heap (hs : s.Heap) : s'.Heap where
  rootParent := (h.parent _).trans hs.rootParent
  rootType := (h.type _).trans hs.rootType
  rootLt := by
    rw [h.next]
    exact hs.rootLt
  parent := fun d c hc => (h.parent c).trans (hs.parent d c (h.children d ▸ hc))
  lt := fun d c hc => by
    rw [h.next]
    exact hs.lt d c (h.children d ▸ hc)
  dir := fun d c hc => (h.type d).trans (hs.dir d c (h.children d ▸ hc))
  notLink := fun d c hc => by
    rw [h.type]
    exact hs.notLink d c (h.children d ▸ hc)
  names := fun d c hc c' hc' hname => by
    rw [h.name, h.name] at hname
    exact hs.names d c (h.children d ▸ hc) c' (h.children d ▸ hc') hname
  nodup := fun d => by
    rw [h.children]
    exact hs.nodup d

end

end SameShape

/-! ## Visits -/

/-- The state after the copy of a directory was read or found unchanged. -/
def withCopy (uuid : Uuid) (c : Copy) (s : Vfs) : Vfs :=
  { s with copies := update s.copies uuid (some c) }

variable {copy : Copy}

theorem withCopy_self {uuid : Uuid} (h : s.copies uuid = some copy) :
    s.withCopy uuid copy = s := by
  unfold withCopy
  rw [← h, update_eq_self]

theorem sameShape_copies (copies : Uuid → Option Copy) (s : Vfs) :
    SameShape s { s with copies } :=
  ⟨⟨rfl, rfl, fun _ => rfl, fun _ => rfl, fun _ => rfl⟩, fun _ => rfl, fun _ => rfl⟩

theorem sameShape_withCopy (uuid : Uuid) (copy : Copy) (s : Vfs) :
    SameShape s (s.withCopy uuid copy) :=
  sameShape_copies _ s

theorem sameShape_setParentChanged (id : Nat) (s : Vfs) : SameShape s (s.setParentChanged id) := by
  refine ⟨⟨rfl, rfl, ?_, ?_, ?_⟩, ?_, ?_⟩ <;>
  · intro x
    simp only [setParentChanged]
    split <;> rfl

/-- What a visit that succeeds knows of the copy. -/
structure Visited (s : Vfs) (id : Nat) (dir : StoredDir) (copy : Copy) : Prop where
  stored : s.stored (s.dentries id).linkUuid = some dir
  dirnode : copy.dirnode = dir.dirnode
  timestamp : copy.timestamp = dir.timestamp
  valid : copy.isInvalid = false
  mem : id ∈ copy.dentryList
  aliases : ∀ x ∈ copy.dentryList, x = id ∨
    ∃ c, s.copies (s.dentries id).linkUuid = some c ∧ x ∈ c.dentryList
  newest : copy.dentryList.head? = some id ∨
    ∃ c, s.copies (s.dentries id).linkUuid = some c ∧ id ∈ c.dentryList ∧
      copy.dentryList = c.dentryList

theorem reload_eq {uuid : Uuid} (h : s.copies uuid = some copy) :
    s.nexusMetadataReload uuid = (s.stored uuid).map fun d => s.withCopy uuid
      { copy with dirnode := d.dirnode, timestamp := d.timestamp, isInvalid := false } := by
  unfold nexusMetadataReload modifyCopy withCopy
  rw [h]
  rfl

/-- The copy as it is read. -/
def readCopy (d : StoredDir) (dentryList : List Nat) : Copy :=
  ⟨d.dirnode, d.timestamp, false, dentryList⟩

/-- A copy is brought up to date if its directory is stored; it is reported as changed
if it was valid and older. -/
theorem Coherent.revalidate (h : s.Coherent) {uuid : Uuid} (hcopy : s.copies uuid = some copy) :
    (s.stored uuid = none ∧ s.nexusMetadataRevalidate uuid copy = none) ∨
    ∃ d, s.stored uuid = some d ∧
      s.nexusMetadataRevalidate uuid copy =
        some (s.withCopy uuid (readCopy d copy.dentryList),
          !copy.isInvalid && decide (copy.timestamp < d.timestamp)) := by
  unfold nexusMetadataRevalidate
  rw [reload_eq hcopy]
  cases hvalid : copy.isInvalid with
  | true =>
    cases hstored : s.stored uuid with
    | none => exact .inl ⟨rfl, rfl⟩
    | some d => exact .inr ⟨d, rfl, rfl⟩
  | false =>
    obtain ⟨d, hstored, hle, hsame⟩ := h.synced uuid copy hcopy hvalid
    refine .inr ⟨d, hstored, ?_⟩
    simp only [Bool.false_eq_true, if_false, hasChanged, hstored, Bool.not_false, Bool.true_and]
    by_cases hlt : copy.timestamp < d.timestamp
    · simp only [hlt, decide_true, if_true]
      rfl
    · have htime : copy.timestamp = d.timestamp := by omega
      have hread : readCopy d copy.dentryList = copy := by
        unfold readCopy
        rw [← hsame htime, ← htime, ← hvalid]
      simp only [hlt, decide_false, Bool.false_eq_true, if_false]
      rw [hread, withCopy_self hcopy]

theorem instantiated_iff (hcopy : s.copies (s.dentries id).linkUuid = some copy) :
    s.instantiated id = true ↔ id ∈ copy.dentryList := by
  simp [instantiated, hcopy]

/-- A visit fails if the directory is not stored, and otherwise ends with a copy that
is what is stored; the children are marked if they may have changed. -/
theorem Coherent.dentryRevalidate_cases (h : s.Coherent)
    (hdir : (s.dentries id).direntType = .dir) :
    (s.stored (s.dentries id).linkUuid = none ∧ s.dentryRevalidate id = none) ∨
    ∃ dir copy, s.Visited id dir copy ∧
      (s.dentryRevalidate id = some (s.withCopy (s.dentries id).linkUuid copy) ∧
          ¬ s.WillMark id ∨
        s.dentryRevalidate id =
          some ((s.withCopy (s.dentries id).linkUuid copy).setParentChanged id)) := by
  unfold dentryRevalidate
  simp only [hdir, reduceCtorEq, if_false]
  cases hcopy : s.copies (s.dentries id).linkUuid with
  | none =>
    simp only [nexusVfsLoad, hcopy, nexusMetadataLoad]
    cases hstored : s.stored (s.dentries id).linkUuid with
    | none => exact .inl ⟨rfl, rfl⟩
    | some d =>
      refine .inr ⟨d, readCopy d [id], ⟨hstored, rfl, rfl, rfl, by simp [readCopy],
        by simp [readCopy], .inl rfl⟩, .inl ⟨?_, ?_⟩⟩
      · simp [dentryInstantiate, modifyCopy, withCopy, readCopy]
      · rintro ⟨c, d', hc, -⟩
        simp [hcopy] at hc
  | some copy =>
    obtain ⟨hstored, hnone⟩ | ⟨d, hstored, hsome⟩ := h.revalidate hcopy
    · refine .inl ⟨hstored, ?_⟩
      cases hinst : s.instantiated id with
      | true => simp only [hnone]
      | false => simp [nexusVfsLoad, hcopy, hnone, nexusMetadataLoad, hstored]
    · right
      cases hinst : s.instantiated id with
      | true =>
        have hmem := (instantiated_iff hcopy).mp hinst
        refine ⟨d, readCopy d copy.dentryList, ⟨hstored, rfl, rfl, rfl, hmem,
          fun x hx => .inr ⟨copy, hcopy, hx⟩, .inr ⟨copy, hcopy, hmem, rfl⟩⟩, ?_⟩
        simp only [hsome]
        cases hchanged : !copy.isInvalid && decide (copy.timestamp < d.timestamp) with
        | true => exact .inr rfl
        | false =>
          refine .inl ⟨rfl, ?_⟩
          rintro ⟨c, d', hc, hvalid, -, hd', hlt⟩
          cases hcopy.symm.trans hc
          cases hstored.symm.trans hd'
          simp [hvalid, hlt] at hchanged
      | false =>
        have hmem : id ∉ copy.dentryList := by
          rw [← instantiated_iff hcopy, hinst]
          simp
        refine ⟨d, readCopy d (id :: copy.dentryList), ⟨hstored, rfl, rfl, rfl,
          List.mem_cons_self, ?_, .inl rfl⟩, .inl ⟨?_, ?_⟩⟩
        · intro x hx
          exact (List.mem_cons.mp hx).imp (fun hx => hx) fun hx => ⟨copy, hcopy, hx⟩
        · simp only [nexusVfsLoad, hcopy, hsome]
          simp [dentryInstantiate, modifyCopy, withCopy, readCopy]
        · rintro ⟨c, d', hc, -, hin, -⟩
          cases hcopy.symm.trans hc
          exact hmem hin

/-- The child is what it was. -/
structure Kept (s s' : Vfs) (d c : Nat) : Prop where
  mem : c ∈ (s.dentries d).children
  stored : s'.stored (s'.dentries d).linkUuid = s.stored (s.dentries d).linkUuid
  name : (s'.dentries c).name = (s.dentries c).name
  type : (s'.dentries c).direntType = (s.dentries c).direntType
  uuid : (s'.dentries c).linkUuid = (s.dentries c).linkUuid
  mark : (s'.dentries c).parentChanged = false → (s.dentries c).parentChanged = false
  will : s.WillMark d → (s'.dentries c).parentChanged = false → s'.WillMark d

theorem Kept.storedEntry (h : Kept s s' d c) (name : Name) :
    s'.storedEntry d name = s.storedEntry d name := by
  unfold Vfs.storedEntry
  rw [h.stored]

theorem Kept.linked (h : Kept s s' d c) : s'.Linked d c ↔ s.Linked d c := by
  unfold Linked
  rw [h.storedEntry, h.name, h.type, h.uuid]

/-- The children of live dentries are linked, or what they were. -/
def Follows (s s' : Vfs) : Prop :=
  ∀ d p, s'.Live d p → ∀ c ∈ (s'.dentries d).children,
    s'.Linked d c ∨ s.Live d p ∧ Kept s s' d c

namespace Coherent

variable (h : s.Coherent) (hfollows : Follows s s')
include h hfollows

theorem linked_of_follows : ∀ d p, s'.Live d p → ∀ c ∈ (s'.dentries d).children,
    (s'.dentries c).parentChanged = false →
      (s'.stored (s'.dentries d).linkUuid).isSome = true → s'.Linked d c ∨ s'.WillMark d := by
  intro d p hd c hc hmark hstored
  obtain hlink | ⟨hd, hk⟩ := hfollows d p hd c hc
  · exact .inl hlink
  · rw [hk.stored] at hstored
    exact (h.linked d p hd c hk.mem (hk.mark hmark) hstored).imp hk.linked.mpr
      fun hwill => hk.will hwill hmark

theorem typed_of_follows : ∀ d p, s'.Live d p → ∀ c ∈ (s'.dentries d).children, ∀ type,
    s'.storedEntry d (s'.dentries c).name = some (type, (s'.dentries c).linkUuid) →
      type = (s'.dentries c).direntType := by
  intro d p hd c hc type hentry
  obtain hlink | ⟨hd, hk⟩ := hfollows d p hd c hc
  · cases hentry.symm.trans hlink
    rfl
  · rw [hk.storedEntry, hk.name, hk.uuid] at hentry
    rw [hk.type]
    exact h.typed d p hd c hk.mem type hentry

theorem places_of_follows (htree : s'.tree = s.tree) : s'.tree.UniquePlaces ∨ s'.AllLinked := by
  rw [htree]
  refine h.places.imp id fun hall => ?_
  intro d p hd c hc hmark hstored
  obtain hlink | ⟨hd, hk⟩ := hfollows d p hd c hc
  · exact hlink
  · rw [hk.stored] at hstored
    exact hk.linked.mpr (hall d p hd c hk.mem (hk.mark hmark) hstored)

end Coherent

theorem SameShape.kept (h : SameShape s s') (hc : c ∈ (s.dentries d).children)
    (hmark : (s'.dentries c).parentChanged = false → (s.dentries c).parentChanged = false)
    (hwill : s.WillMark d → (s'.dentries c).parentChanged = false → s'.WillMark d) :
    Kept s s' d c :=
  ⟨hc, by rw [h.stored, h.uuid], h.name c, h.type c, h.uuid c, hmark, hwill⟩

/-- The copy that a visit leaves keeps the cache coherent, if the children of the
dentry are marked or need not be. -/
theorem Coherent.visited (h : s.Coherent) (hl : s.Live id p)
    (hdir : (s.dentries id).direntType = .dir) {dir : StoredDir} (hv : s.Visited id dir copy)
    (hs : SameShape s s')
    (hcopies : s'.copies = update s.copies (s.dentries id).linkUuid (some copy))
    (hmarks : ∀ x, (s'.dentries x).parentChanged = false → (s.dentries x).parentChanged = false)
    (hmarked : s.WillMark id → ∀ x ∈ (s.dentries id).children,
      (s'.dentries x).parentChanged = true) : s'.Coherent := by
  have hfollows : Follows s s' := by
    intro d q hd c hc
    rw [hs.live_iff] at hd
    rw [hs.children] at hc
    by_cases hlink : s.Linked d c
    · exact .inl (hs.linked.mpr hlink)
    refine .inr ⟨hd, hs.kept hc (hmarks c) fun hwill hmark => ?_⟩
    have ⟨c', d', hc', hvalid, hmem, hd', hlt⟩ := hwill
    by_cases huuid : (s.dentries d).linkUuid = (s.dentries id).linkUuid
    · exfalso
      obtain hunique | hall := h.places
      · have hsame := hd.unique_uuid h.heap hunique hl (h.heap.dir d c hc) hdir huuid
        subst hsame
        simp [hmarked hwill c hc] at hmark
      · exact hlink (hall d q hd c hc (hmarks c hmark) (by rw [hd']; rfl))
    · refine ⟨c', d', ?_, hvalid, hmem, ?_, hlt⟩
      · rw [hs.uuid, hcopies, update_of_ne huuid]
        exact hc'
      · rw [hs.stored, hs.uuid]
        exact hd'
  constructor
  case heap => exact hs.heap h.heap
  case synced =>
    intro uuid c hc hvalid
    rw [hcopies] at hc
    rw [hs.stored]
    by_cases huuid : uuid = (s.dentries id).linkUuid
    · subst huuid
      rw [update_self] at hc
      cases hc
      exact ⟨dir, hv.stored, hv.timestamp.le, fun _ => hv.dirnode⟩
    · rw [update_of_ne huuid] at hc
      exact h.synced uuid c hc hvalid
  case aliases =>
    intro uuid c hc x hx
    rw [hcopies] at hc
    rw [hs.uuid, hs.next]
    by_cases huuid : uuid = (s.dentries id).linkUuid
    · subst huuid
      rw [update_self] at hc
      cases hc
      obtain rfl | ⟨c', hc', hx'⟩ := hv.aliases x hx
      · exact ⟨rfl, hl.lt h.heap⟩
      · exact h.aliases _ c' hc' x hx'
    · rw [update_of_ne huuid] at hc
      exact h.aliases uuid c hc x hx
  case newest =>
    intro hunique x q hx hxdir c hc hmem
    rw [hs.tree] at hunique
    rw [hs.live_iff] at hx
    rw [hs.type] at hxdir
    rw [hs.uuid, hcopies] at hc
    by_cases huuid : (s.dentries x).linkUuid = (s.dentries id).linkUuid
    · have hsame := hx.unique_uuid h.heap hunique hl hxdir hdir huuid
      subst hsame
      rw [update_self] at hc
      cases hc
      obtain hhead | ⟨c', hc', hmem', heq⟩ := hv.newest
      · exact hhead
      · rw [heq]
        exact h.newest hunique x q hx hxdir c' hc' hmem'
    · rw [update_of_ne huuid] at hc
      exact h.newest hunique x q hx hxdir c hc hmem
  case linked => exact h.linked_of_follows hfollows
  case typed => exact h.typed_of_follows hfollows
  case places => exact h.places_of_follows hfollows hs.tree

theorem Coherent.dentryRevalidate (h : s.Coherent) (hl : s.Live id p)
    (hdir : (s.dentries id).direntType = .dir) :
    (s.stored (s.dentries id).linkUuid = none ∧ s.dentryRevalidate id = none) ∨
    ∃ dir copy s', s.dentryRevalidate id = some s' ∧ s'.Coherent ∧ SameShape s s' ∧
      s.stored (s.dentries id).linkUuid = some dir ∧
      s'.copies (s.dentries id).linkUuid = some copy ∧ copy.dirnode = dir.dirnode ∧
      copy.timestamp = dir.timestamp ∧ copy.isInvalid = false ∧ id ∈ copy.dentryList := by
  obtain hnone | ⟨dir, copy, hv, ⟨hsome, hwill⟩ | hsome⟩ := h.dentryRevalidate_cases hdir
  · exact .inl hnone
  · have hshape := sameShape_withCopy (s.dentries id).linkUuid copy s
    refine .inr ⟨dir, copy, _, hsome, ?_, hshape, hv.stored, ?_, hv.dirnode, hv.timestamp, hv.valid,
      hv.mem⟩
    · exact h.visited hl hdir hv hshape rfl (fun _ hmark => hmark) fun hw => absurd hw hwill
    · exact update_self _ _ _
  · have hcopy := sameShape_withCopy (s.dentries id).linkUuid copy s
    have hmark := sameShape_setParentChanged id (s.withCopy (s.dentries id).linkUuid copy)
    have hshape : SameShape s _ := hcopy.trans hmark
    refine .inr ⟨dir, copy, _, hsome, ?_, hshape, hv.stored, ?_, hv.dirnode, hv.timestamp, hv.valid,
      hv.mem⟩
    · refine h.visited hl hdir hv hshape rfl (fun x hx => ?_) fun _ x hx => ?_
      · simp only [setParentChanged] at hx
        split at hx
        · contradiction
        · exact hx
      · have hx' : x ∈ ((s.withCopy (s.dentries id).linkUuid copy).dentries id).children := hx
        simp only [setParentChanged]
        rw [if_pos hx']
    · exact update_self _ _ _

theorem Coherent.linked_of_visited (h : s.Coherent) (hl : s.Live id p) {dir : StoredDir}
    (hstored : s.stored (s.dentries id).linkUuid = some dir)
    (hcopy : s.copies (s.dentries id).linkUuid = some copy)
    (htime : copy.timestamp = dir.timestamp) (hc : c ∈ (s.dentries id).children)
    (hmark : (s.dentries c).parentChanged = false) : s.Linked id c := by
  refine (h.linked id p hl c hc hmark (by rw [hstored]; rfl)).resolve_right ?_
  rintro ⟨copy', dir', hcopy', -, -, hdir', hlt⟩
  cases hcopy.symm.trans hcopy'
  cases hstored.symm.trans hdir'
  omega

/-! ## A fresh mount -/

theorem coherent_dcacheInitRoot (rootUuid : Uuid) (stored : Uuid → Option StoredDir) :
    (dcacheInitRoot rootUuid stored).Coherent where
  heap :=
    { rootParent := rfl
      rootType := rfl
      rootLt := Nat.zero_lt_one
      parent := fun _ _ hc => nomatch hc
      lt := fun _ _ hc => nomatch hc
      dir := fun _ _ hc => nomatch hc
      notLink := fun _ _ hc => nomatch hc
      names := fun _ _ hc => nomatch hc
      nodup := fun _ => List.nodup_nil }
  synced := fun _ _ hc => nomatch hc
  aliases := fun _ _ hc => nomatch hc
  newest := fun _ _ _ _ _ _ hc => nomatch hc
  linked := fun _ _ _ _ hc => nomatch hc
  typed := fun _ _ _ _ hc => nomatch hc
  places := .inr fun _ _ _ _ hc => nomatch hc

end Vfs

end Nexus.Dcache
