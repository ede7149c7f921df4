import Nexus.Ecalls.Checked

/-!
# The ecalls on objects and directories

An ecall that gets an object by its path puts it back in all cases, so it loses
only what its get does not hand over, and what it locks beside the object: the audit
log, the hardlink table and the buckets of a directory.
-/

namespace Nexus.Locking

open Function Programs

variable {s : Locks} {uuid : Uuid}

/-- The object is not orphaned, and the condition holds if it is got. -/
def ObjectGet.Opens (s : Locks) (p : ObjectGet) (condition : Uuid → Prop) : Prop :=
  match p.found with
  | none => True
  | some uuid => (s (.object uuid)).dentryEnding p.get ≠ .orphaned ∧
    (((s (.object uuid)).dentryEnding p.get).succeeds = true → condition uuid)

/-- The condition holds if the object is got. -/
def ObjectGet.Reads (s : Locks) (p : ObjectGet) (condition : Uuid → Prop) : Prop :=
  match p.found with
  | none => True
  | some uuid => (s (.object uuid)).dentryReads p.get = true → condition uuid

theorem ensures_put {m : LockM Bool} {condition : Prop} (r : OcallResult)
    (h : Ensures m s fun _ s' => SettlesIn [.object uuid] condition s') :
    Ensures (do
      let ok ← m
      nexusVfsPut uuid r
      return ok) s fun _ s' => Settles condition s' := by
  refine h.bind fun ok s₁ h₁ => ?_
  refine (h₁.then (fun hready => release_drop hready r) (leavesAside_release rfl r)).bind ?_
  exact fun _ s₂ h₂ => ensures_pure h₂.settles

theorem withObject_ensures (h : ReadyIn [] s) (p : ObjectGet) {body : Uuid → LockM Bool}
    {condition : Uuid → Prop}
    (hbody : ∀ uuid, ReadyIn [.object uuid] (update s (.object uuid)
        ((s (.object uuid)).dentryRevalidate nexusFrdwr p.get).1) →
      Ensures (body uuid) (update s (.object uuid)
        ((s (.object uuid)).dentryRevalidate nexusFrdwr p.get).1) fun _ s' =>
        SettlesIn [.object uuid] (condition uuid) s') :
    Ensures (withObject p nexusFrdwr body) s fun _ s' => Settles (p.Opens s condition) s' := by
  unfold withObject ObjectGet.Opens
  cases p.found with
  | none => exact ensures_pure (settles_of_free h trivial)
  | some uuid =>
    have hobject := h.free (.object uuid) List.not_mem_nil
    have hrest := fun hc =>
      ensures_put p.release (hbody uuid ((h.cons _).update_ready List.mem_cons_self hc))
    refine ensures_bind (ensures_ending (hobject.dentryRevalidate_ends p.get) ?_ ?_ ?_ ?_)
    · intro he hfree
      exact ensures_pure (settles_of_free (h.update_free _ hfree) (by simp [he, Ending.succeeds]))
    · intro he hlost
      exact ensures_pure (settles_of_leak (leaks_update hlost.writers) (by simp [he]))
    · intro he hheld
      exact (hrest (.inr hheld)).mono fun _ s' hs' => by
        simpa [he, Ending.succeeds] using hs'
    · intro he hnew
      exact (hrest (.inl hnew.toFree)).mono fun _ s' hs' => by
        simpa [he, Ending.succeeds] using hs'

theorem withObject_read (h : ReadyIn [] s) (p : ObjectGet) {body : Uuid → LockM Bool}
    {condition : Uuid → Prop}
    (hbody : ∀ uuid, ReadyIn [.object uuid] (update s (.object uuid)
        ((s (.object uuid)).dentryRevalidate nexusFread p.get).1) →
      Ensures (body uuid) (update s (.object uuid)
        ((s (.object uuid)).dentryRevalidate nexusFread p.get).1) fun _ s' =>
        SettlesIn [.object uuid] (condition uuid) s') :
    Ensures (withObject p nexusFread body) s fun _ s' => Settles (p.Reads s condition) s' := by
  unfold withObject ObjectGet.Reads
  cases p.found with
  | none => exact ensures_pure (settles_of_free h trivial)
  | some uuid =>
    have hobject := h.free (.object uuid) List.not_mem_nil
    have hread := h.update_free (.object uuid) (hobject.dentryRevalidate_read p.get)
    refine ensures_bind (ensures_onObject ?_)
    rw [hobject.dentryRevalidate_reads p.get]
    cases hgot : (s (.object uuid)).dentryReads p.get with
    | false => exact ensures_pure (settles_of_free hread (by simp [hgot]))
    | true =>
      exact (ensures_put p.release (hbody uuid (hread.cons _))).mono fun _ s' hs' => by
        simpa [hgot] using hs'

/-! ## Bodies that only touch the object -/

/-- The object as the get leaves it. -/
def ObjectGet.got (s : Locks) (flags : IoFlags) (p : ObjectGet) (uuid : Uuid) : ObjectLocks :=
  ((s (.object uuid)).dentryRevalidate flags p.get).1

/-- The buckets are kept if the entry is added. -/
def DirUpdate.Kept (o : DirUpdate) : Prop :=
  o.created = true → o.added = true → bucketsKept o.put.buckets = true

theorem addEntry_ensures (h : ReadyIn [.object uuid] s) (o : DirUpdate) :
    Ensures (addEntry o uuid) s fun _ s' => SettlesIn [.object uuid] o.Kept s' := by
  unfold addEntry DirUpdate.Kept
  cases o.created with
  | false => exact ensures_pure (settlesIn_of_ready h nofun)
  | true =>
    cases o.added with
    | false => exact ensures_pure (settlesIn_of_ready h nofun)
    | true => simpa using markDirty_storeObject h (by simp) uuid o.put

/-- The buckets are kept if the helper succeeds and there is something to write. -/
def ObjectCall.Kept (space : ObjectLocks) (stores : Prop) (o : ObjectCall) : Prop :=
  space.readSucceeds o.space = true → o.changed = true → stores → bucketsKept o.put.buckets = true

theorem objectAttributes_ensures (h : ReadyIn [.object uuid] s) (modifies : Bool)
    (o : ObjectCall) :
    Ensures (objectAttributes modifies o uuid) s fun _ s' =>
      SettlesIn [.object uuid] (o.Kept (s .attributeSpace)
        (modifies = true ∨ (s (.object uuid)).skipsStore = false)) s' := by
  unfold objectAttributes ObjectCall.Kept
  refine ensures_bind (ensures_acquire_fread (h.free _ (by simp)) o.space fun c hc => ?_)
  have h₁ := h.update_free .attributeSpace hc
  cases (s .attributeSpace).readSucceeds o.space with
  | false => exact ensures_pure (settlesIn_of_ready h₁ nofun)
  | true =>
    cases o.changed with
    | false => exact ensures_pure (settlesIn_of_ready h₁ (by simp))
    | true =>
      cases modifies with
      | true => simpa using markDirty_storeObject h₁ (by simp) uuid o.put
      | false =>
        refine (storeObject_ensures h₁ (by simp) uuid o.put).mono fun _ s' hs' => ?_
        simpa using hs'.2

theorem ecallAbacObjectAttribute_ensures (h : ReadyIn [] s) (o : ObjectCall) :
    Ensures (withObject o.object nexusFrdwr (objectAttributes true o)) s fun _ s' =>
      Settles (o.object.Opens s fun _ => o.Kept (s .attributeSpace) True) s' := by
  refine withObject_ensures h o.object fun uuid h₁ => ?_
  simpa using objectAttributes_ensures h₁ true o

/-- A get for reading whose body only touches the object gives everything back. -/
theorem readyIn_of_reads {p : ObjectGet} {s' : Locks} (h : Settles (p.Reads s fun _ => True) s') :
    ReadyIn [] s' := by
  refine h.1 ?_
  unfold ObjectGet.Reads
  cases p.found <;> simp

/-- A listing stores an object that an earlier call has left changed. -/
def ObjectCall.Listed (s : Locks) (o : ObjectCall) : Prop :=
  o.object.Reads s fun uuid => o.Kept (s .attributeSpace)
    ((o.object.got s nexusFread uuid).skipsStore = false)

theorem ecallAbacObjectAttributeLs_ensures (h : ReadyIn [] s) (o : ObjectCall) :
    Ensures (ecallAbacObjectAttributeLs o) s fun _ s' => Settles (o.Listed s) s' := by
  refine withObject_read h o.object fun uuid h₁ => ?_
  simpa [ObjectGet.got] using objectAttributes_ensures h₁ false o

theorem ecallFsSymlink_ensures (h : ReadyIn [] s) (o : DirUpdate) :
    Ensures (ecallFsSymlink o) s fun _ s' => Settles (o.dir.Opens s fun _ => o.Kept) s' :=
  withObject_ensures h o.dir fun _ h₁ => addEntry_ensures h₁ o

theorem ecallFsReadlink_ensures (h : ReadyIn [] s) (o : DirRead) :
    Ensures (ecallFsReadlink o) s fun _ s' => ReadyIn [] s' :=
  (withObject_read h o.dir fun _ h₁ => ensures_pure (settlesIn_of_ready h₁ trivial)).mono
    fun _ _ => readyIn_of_reads

theorem ecallAbacPrintAuditLog_ensures (h : ReadyIn [] s) (o : PrintAuditLog) :
    Ensures (ecallAbacPrintAuditLog o) s fun _ s' =>
      Settles (o.object.Opens s fun _ => True) s' := by
  refine withObject_ensures h o.object fun uuid h₁ => ?_
  cases o.log with
  | none => exact ensures_pure (settlesIn_of_ready h₁ trivial)
  | some log =>
    refine (ensures_quiet h₁ (by simp) fun _ hc =>
      hc.vfsLoad_read false o.get).bind fun ok s₂ h₂ => ?_
    cases ok with
    | false => exact ensures_pure (settlesIn_of_ready h₂ trivial)
    | true =>
      refine (readReleased_read h₂ (by simp) o.table).bind fun _ s₃ h₃ => ?_
      exact (ensures_release_ready h₃ _ o.release).bind fun _ s₄ h₄ =>
        ensures_pure (settlesIn_of_ready h₄ trivial)

/-! ## Bodies with an access check -/

theorem verdict_update (o : CheckOutcome) (owner : Bool) (s : Locks) (uuid : Uuid)
    (c object : ObjectLocks) :
    o.verdict owner (update s (.object uuid) c) object = o.verdict owner s object := by
  simp [CheckOutcome.verdict, CheckOutcome.requested]

/-- The check does not lose the audit log, and the condition holds if access is
granted. -/
def CheckOutcome.Passes (owner : Bool) (s : Locks) (object : ObjectLocks) (o : CheckOutcome)
    (condition : Prop) : Prop :=
  o.verdict owner s object ≠ .leaks ∧ (o.verdict owner s object = .grants → condition)

theorem checked_ensures (h : ReadyIn [.object uuid] s) (owner : Bool) (o : CheckOutcome)
    (rest : LockM Bool) (condition : Prop)
    (hrest : ∀ s' : Locks, ReadyIn [.object uuid] s' → s' .hardlinkTable = s .hardlinkTable →
      Ensures rest s' fun _ s'' => SettlesIn [.object uuid] condition s'') :
    Ensures (do
      if !(← bouncerAccessCheck owner uuid o) then return false
      rest) s fun _ s' =>
        SettlesIn [.object uuid] (o.Passes owner s (s (.object uuid)) condition) s' := by
  refine ((bouncerAccessCheck_ensures h owner o).and
    (bouncerAccessCheck_leaves owner uuid o s)).bind ?_
  rintro ok s₁ ⟨hyields, htable⟩
  unfold CheckOutcome.Passes
  generalize o.verdict owner s (s (.object uuid)) = v at hyields
  cases v with
  | aborts => exact hyields.elim
  | leaks =>
    obtain ⟨rfl, hlost⟩ := hyields
    exact ensures_pure (settlesIn_of_leak hlost fun hpass => hpass.1 rfl)
  | denies =>
    obtain ⟨rfl, h₁⟩ := hyields
    exact ensures_pure (settlesIn_of_ready h₁ (by simp))
  | grants =>
    obtain ⟨rfl, h₁⟩ := hyields
    exact (hrest s₁ h₁ htable).mono fun _ s' hs' => by simpa using hs'

/-- The directory is opened for writing, the check passes, and the buckets are kept. -/
def DirUpdate.Released (owner : Bool) (s : Locks) (o : DirUpdate) : Prop :=
  o.dir.Opens s fun uuid => o.check.Passes owner s (o.dir.got s nexusFrdwr uuid) o.Kept

theorem ecallFsCreate_ensures (h : ReadyIn [] s) (owner : Bool) (o : DirUpdate) :
    Ensures (ecallFsCreate owner o) s fun _ s' => Settles (o.Released owner s) s' := by
  refine withObject_ensures h o.dir fun uuid h₁ => ?_
  have hcheck := checked_ensures h₁ owner o.check (addEntry o uuid) o.Kept
    fun s' h' _ => addEntry_ensures h' o
  simpa [CheckOutcome.Passes, verdict_update, ObjectGet.got] using hcheck

/-- The directory is opened for reading and the check passes. -/
def DirRead.Released (owner : Bool) (s : Locks) (o : DirRead) : Prop :=
  o.dir.Reads s fun uuid => o.check.Passes owner s (o.dir.got s nexusFread uuid) True

theorem checkedRead_ensures (h : ReadyIn [] s) (owner : Bool) (o : DirRead) :
    Ensures (checkedRead owner o) s fun _ s' => Settles (o.Released owner s) s' := by
  refine withObject_read h o.dir fun uuid h₁ => ?_
  have hcheck := checked_ensures h₁ owner o.check (pure o.found) True
    fun s' h' _ => ensures_pure (settlesIn_of_ready h' trivial)
  simpa [CheckOutcome.Passes, verdict_update, ObjectGet.got] using hcheck

/-! ## Removing an entry -/

/-- The hardlink table is not rejected after it was locked, and a changed one is
stored. -/
def RemoveFile.Released (c : ObjectLocks) (o : RemoveFile) : Prop :=
  Acquires c o.table ∧
    (c.acquireEnding o.table = .held → o.contained = true → o.put.succeeds = true)

def Removed.Released (c : ObjectLocks) : Removed → Prop
  | .file _ o => o.Released c
  | .dir _ | .link => True

/-- The entry can be taken out of the directory, if no lock is lost. -/
def Removed.Removes (c : ObjectLocks) : Removed → Prop
  | .file _ o => c.acquireEnding o.table = .held
  | .dir _ | .link => True

section

variable {Q : Bool → Locks → Prop}

theorem ensures_removeFilenode (h : ReadyIn [.object uuid] s) (file : Uuid) (o : RemoveFile)
    (hleaks : ¬ o.Released (s .hardlinkTable) → ∀ s' : Locks, LeaksAside s' → Q false s')
    (hrest : o.Released (s .hardlinkTable) → ∀ s' : Locks, ReadyIn [.object uuid] s' →
      Q (decide ((s .hardlinkTable).acquireEnding o.table = .held)) s') :
    Ensures (removeFilenode file o) s Q := by
  unfold removeFilenode
  unfold RemoveFile.Released at hleaks hrest
  refine ensures_bind (ensures_acquire (h.free _ (by simp)) o.table ?_ ?_ ?_)
  · intro he c hc
    rw [he] at hrest
    exact ensures_pure (hrest (by simp [Acquires, he]) _ (h.update_free _ hc))
  · intro he c hc
    exact ensures_pure (hleaks (by simp [Acquires, he]) _ (leaksAside_update rfl hc.writers))
  · intro he c hc _
    simp only [he, decide_true] at hrest
    cases hcontained : o.contained with
    | false =>
      refine ensures_bind (ensures_release (by simpa using .inr hc) o.release fun c₁ hc₁ => ?_)
      rw [update_idem]
      refine ensures_bind (ensures_modifyObject (ensures_pure ?_))
      exact hrest (by simp [Acquires, he, hcontained]) _
        ((h.update_free _ hc₁).update_free _ (ObjectLocks.evict_free _))
    | true =>
      refine ensures_markDirty hc fun c₁ hc₁ hmust => ?_
      have hflush : ∀ s₁ : Locks, ReadyIn [.object uuid] s₁ →
          Ensures (flush .hardlinkTable o.put) (update s₁ .hardlinkTable c₁) Q := by
        intro s₁ h₁
        refine ensures_flush_update hc₁ hmust o.put ?_ ?_
        · intro hput c₂ hc₂
          exact hrest (by simp [Acquires, he, hput]) _ (h₁.update_free _ hc₂)
        · intro hput c₂ hc₂
          exact hleaks (by simp [he, hput, hcontained]) _
            (leaksAside_update rfl (by simp [hc₂.writers]))
      cases o.last with
      | false => exact hflush s h
      | true =>
        refine ensures_bind (ensures_modifyObject ?_)
        rw [update_comm (by simp)]
        exact hflush _ (h.update_free _ (ObjectLocks.evict_free _))

theorem ensures_removeEntry (h : ReadyIn [.object uuid] s) (entry : Removed)
    (hleaks : ¬ entry.Released (s .hardlinkTable) → ∀ s' : Locks, LeaksAside s' → Q false s')
    (hkeeps : entry.Released (s .hardlinkTable) → ¬ entry.Removes (s .hardlinkTable) →
      ∀ s' : Locks, ReadyIn [.object uuid] s' → Q false s')
    (hremoves : entry.Released (s .hardlinkTable) → entry.Removes (s .hardlinkTable) →
      ∀ s' : Locks, ReadyIn [.object uuid] s' → Q true s') :
    Ensures (removeEntry entry) s Q := by
  cases entry with
  | file file o =>
    refine ensures_removeFilenode h file o hleaks fun hreleased s' h' => ?_
    by_cases he : (s .hardlinkTable).acquireEnding o.table = .held
    · rw [decide_eq_true he]
      exact hremoves hreleased he s' h'
    · rw [decide_eq_false he]
      exact hkeeps hreleased he s' h'
  | dir dir =>
    exact ensures_bind (ensures_modifyObject (ensures_pure (hremoves trivial trivial _
      (h.update_free _ (ObjectLocks.evict_free _)))))
  | link => exact ensures_pure (hremoves trivial trivial s h)

end

/-- The entry is removed without losing the hardlink table, and the buckets are kept. -/
def DirRemove.Kept (c : ObjectLocks) (o : DirRemove) : Prop :=
  ∀ entry ∈ o.entry, entry.Released c ∧ (entry.Removes c → bucketsKept o.put.buckets = true)

/-- The directory is opened, the check passes, and nothing is lost with the entry. -/
def DirRemove.Released (owner : Bool) (s : Locks) (o : DirRemove) : Prop :=
  o.dir.Opens s fun uuid => o.check.Passes owner s (o.dir.got s nexusFrdwr uuid)
    (o.Kept (s .hardlinkTable))

section

variable (h : ReadyIn [] s)
include h

theorem ecallFsRemove_ensures (owner : Bool) (o : DirRemove) :
    Ensures (ecallFsRemove owner o) s fun _ s' => Settles (o.Released owner s) s' := by
  refine withObject_ensures h o.dir fun uuid h₁ => ?_
  refine (checked_ensures h₁ owner o.check _ (o.Kept (s .hardlinkTable))
    fun s₂ h₂ htable => ?_).mono fun _ s' hs' => ?_
  · rw [update_of_ne (by simp)] at htable
    unfold DirRemove.Kept
    cases o.entry with
    | none => exact ensures_pure (settlesIn_of_ready h₂ (by simp))
    | some entry =>
      rw [← htable]
      simp only [Option.mem_some_iff, forall_eq']
      refine ensures_bind (ensures_removeEntry h₂ entry ?_ ?_ ?_)
      · intro hlost s₃ h₃
        exact ensures_pure (settlesIn_of_leak h₃ fun hkept => hlost hkept.1)
      · intro hreleased hnot s₃ h₃
        exact ensures_pure (settlesIn_of_ready h₃ ⟨hreleased, fun hyes => absurd hyes hnot⟩)
      · intro hreleased hremoves s₃ h₃
        simpa [hreleased, hremoves] using markDirty_storeObject h₃ (by simp) uuid o.put
  · simpa [CheckOutcome.Passes, verdict_update, ObjectGet.got] using hs'

/-! ## Walks and stats -/

theorem Visit.ensures (v : Visit) : Ensures (v.run none) s fun _ s' => ReadyIn [] s' := by
  cases v with
  | revalidate uuid o =>
    exact ensures_modifyObject (h.update_free _
      ((h.free _ List.not_mem_nil).dentryRevalidate_read _))
  | evict uuid => exact ensures_modifyObject (h.update_free _ (ObjectLocks.evict_free _))

theorem walk_ensures (visits : List Visit) :
    Ensures (walk none visits) s fun _ s' => ReadyIn [] s' := by
  induction visits generalizing s with
  | nil => exact ensures_pure h
  | cons v visits ih => exact (v.ensures h).bind fun _ _ h₁ => ih h₁

theorem dentryGetMetadata_read (uuid : Uuid) (o : DentryOutcome) :
    Ensures (dentryGetMetadata uuid nexusFread o) s fun _ s' => ReadyIn [] s' :=
  ensures_quiet h List.not_mem_nil fun _ hc => hc.dentryRevalidate_read o

theorem exportLinkCount_ensures (o : Option TableRead) :
    Ensures (exportLinkCount o) s fun _ s' => ReadyIn [] s' := by
  cases o with
  | none => exact ensures_pure h
  | some o =>
    exact (readReleased_read h List.not_mem_nil o).bind fun _ _ h₁ => ensures_pure h₁

theorem statFile_ensures (o : StatFile) : Ensures (statFile o) s fun _ s' => ReadyIn [] s' := by
  unfold statFile
  refine (walk_ensures h o.visits).bind fun _ s₁ h₁ => ?_
  cases o.file.found with
  | none => exact ensures_pure h₁
  | some uuid =>
    have hrest : ∀ {s₂ : Locks}, ReadyIn [] s₂ → Ensures (do
        exportLinkCount o.linkCount
        nexusVfsPut uuid o.file.release
        pure true) s₂ fun _ s' => ReadyIn [] s' := by
      intro s₂ h₂
      refine (exportLinkCount_ensures h₂ o.linkCount).bind fun _ s₃ h₃ => ?_
      exact (ensures_release_ready h₃ _ _).bind fun _ _ h₄ => ensures_pure h₄
    cases o.atParent with
    | true => exact hrest h₁
    | false =>
      exact (dentryGetMetadata_read h₁ uuid o.file.get).guard rfl fun _ => hrest

theorem ecallFsStat_ensures (o : Stat) : Ensures (ecallFsStat o) s fun _ s' => ReadyIn [] s' := by
  unfold ecallFsStat
  cases o.parent with
  | none => exact ensures_pure h
  | some parent =>
    refine (dentryGetMetadata_read h parent.1 parent.2).guard rfl fun s₁ h₁ => ?_
    refine (exportLinkCount_ensures h₁ o.linkCount).bind fun _ s₂ h₂ => ?_
    cases o.file with
    | none => exact ensures_pure h₂
    | some file => exact statFile_ensures h₂ file

end

end Nexus.Locking
