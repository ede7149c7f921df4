import Nexus.Ecalls.LockBalance

/-!
# The write lock of an object under an access check

An ecall that changes an object opens it for writing, makes the access check and
then stores the object.  The first access that is audited gives the object an audit
log and syncs it, and the sync gives the lock away.  It takes the lock again if the
copy was read for writing: `flags` says how the copy was read, not how it is locked.
A copy that was read before and that a revalidation has locked is not locked again.
-/

namespace Nexus

namespace ObjectLocks

/-- The copy has a lock, and a store can allocate its buffer. -/
structure LockedForWriting (c : ObjectLocks) : Prop where
  locked : ∃ m ∈ c.metadata, m.isLocked = true
  mode : c.buffer.inWriteMode = true
  writers : 0 < c.buffer.writers

/-- A read of the object fails, however its ocalls end: the copy has to be read anew,
and a put that was deferred has lost its buffer. -/
def Unreadable (c : ObjectLocks) : Prop :=
  (∀ m ∈ c.metadata, m.isInvalid = true) ∧ c.buffer.isDirty = true ∧ c.buffer.tmpBuffer = none

variable {c c' : ObjectLocks} {m : MetadataLock}

theorem alloc_of_inWriteMode {b : BufferState} (h : b.inWriteMode = true) (bytes : Bytes) :
    (bufferLayerAlloc bytes true b).2 = true := by
  obtain ⟨_ | b, remote⟩ := b
  · cases h
  · have h : b.inWriteMode = true := h
    simp [bufferLayerAlloc, h]

/-! ## A sync of a locked object -/

theorem store_metadata {o : PutOutcome} (hm : c.metadata = some m) (hmust : m.mustStore = true)
    (h : c.store o = (c', true)) :
    c'.metadata = some { m with isDirty := false, isLocked := false } := by
  simp only [store, hm, hmust, Bool.not_true, Bool.false_eq_true, if_false] at h
  split at h
  · cases h
  · split at h <;> cases h
    rfl

theorem lock_lockedForWriting {flags : IoFlags} {r : OcallResult} (hm : c.metadata = some m)
    (hflags : nexusIoInLockMode flags = true) (h : c.lock flags r = (c', true)) :
    c'.LockedForWriting := by
  simp only [lock, c.buffer.lock_eq] at h
  by_cases hmode : c.buffer.inWriteMode = true
  · rw [if_pos hmode] at h
    cases h
    exact ⟨⟨_, by rw [hm]; rfl, rfl⟩, hmode, Nat.succ_pos _⟩
  · rw [if_neg hmode] at h
    split at h
    · cases h
    next hlock =>
      split at hlock <;> cases hlock
      cases h
      refine ⟨⟨_, by rw [hm]; rfl, rfl⟩, by simp [hflags], ?_⟩
      simp [MetadataBuffer.writers_countWriter, hflags]

/-- A sync that succeeds keeps the lock only if the copy was read for writing. -/
theorem sync_lockedForWriting_iff {o : SyncOutcome} (hm : c.metadata = some m)
    (hlocked : m.isLocked = true) (h : c.setDirty.sync o = (c', true)) :
    c'.LockedForWriting ↔ nexusIoInLockMode m.flags = true := by
  have hdirty : c.setDirty.metadata = some { m with isDirty := true } := by simp [setDirty, hm]
  simp only [sync, hdirty, hlocked, if_true] at h
  cases hstore : c.setDirty.store o.put with
  | mk c₁ ok =>
    rw [hstore] at h
    cases ok with
    | false => cases h
    | true =>
      have hm₁ := store_metadata hdirty rfl hstore
      cases hflags : nexusIoInLockMode m.flags with
      | true =>
        simp only [hflags, if_true] at h
        exact iff_of_true (lock_lockedForWriting hm₁ hflags h) rfl
      | false =>
        simp only [hflags, Bool.false_eq_true, if_false] at h
        cases h
        refine iff_of_false (fun hc => ?_) Bool.false_ne_true
        obtain ⟨m', hm', hl⟩ := hc.locked
        cases hm₁.symm.trans hm'
        cases hl

/-! ## Reads -/

theorem Unreadable.acquire (h : c.Unreadable) (o : RevalidateOutcome) :
    (c.acquire nexusFread o).2 = false := by
  have hreads : c.reads o = true := by
    cases hm : c.metadata with
    | none => simp [reads, hm]
    | some m => simp [reads, hm, h.1 m hm]
  simp [acquire_eq, hreads, load, c.buffer.get_eq, h.2.1, h.2.2]

theorem acquire_opens (h : ¬ c.Unreadable) : (c.acquire nexusFread Locking.opens).2 = true := by
  rw [acquire_eq]
  cases hreads : c.reads Locking.opens with
  | false => rfl
  | true =>
    -- the time of the entry is not less than zero, so that the copy is invalid
    have hbuf : c.buffer.isDirty = true → c.buffer.tmpBuffer ≠ none := by
      intro hdirty htmp
      refine h ⟨fun m hm => ?_, hdirty, htmp⟩
      obtain ⟨metadata, _ | b, remote⟩ := c
      · cases hdirty
      · cases hm
        simpa [reads, hasChanged, Locking.opens] using hreads
    simp only [if_true, load, c.buffer.get_eq, Locking.opens]
    cases hdirty : c.buffer.isDirty with
    | false => rfl
    | true =>
      obtain ⟨bytes, htmp⟩ := Option.ne_none_iff_exists'.mp (hbuf hdirty)
      simp [htmp]

end ObjectLocks

namespace Locking

open Function Programs ObjectLocks

variable {s : Locks} {uuid : Uuid}

/-- No request of an access check can be made. -/
def NoRequest (s : Locks) : Prop :=
  (s .policyStore).metadata = none ∨ (s .attributeSpace).Unreadable ∨
    ∀ user, (s (.userProfile user)).Unreadable

theorem metadataCreateAuditLog_object (o : AuditOutcome) :
    Ensures (metadataCreateAuditLog uuid o) s fun ok s' => ok = true →
      match o.create with
      | none => s' (.object uuid) = s (.object uuid)
      | some _ => ∃ sync, (s (.object uuid)).setDirty.sync sync = (s' (.object uuid), true) := by
  have hlog : Lockable.object uuid ≠ .auditLog o.log := by simp
  unfold metadataCreateAuditLog
  cases o.create with
  | none => exact ensures_pure fun _ => rfl
  | some new =>
    refine (createObject_leaves hlog new.lock new.put s).bind ?_
    intro created s₁ h₁
    cases created with
    | false => exact ensures_pure nofun
    | true =>
      refine ensures_bind (ensures_modifyObject (ensures_bind (ensures_get ?_)))
      refine (storeOtherBuckets_leaves (x := .object uuid) (by simp) _ _ _).bind
        fun stored s₂ h₂ => ensures_onObject fun hok => ?_
      rw [update_self, h₁] at h₂
      rw [h₂] at hok
      rw [update_self, h₂]
      exact ⟨_, Prod.ext rfl hok⟩

theorem auditAbacRequest_object (o : Option AuditOutcome) :
    Ensures (auditAbacRequest uuid o) s fun ok s' => ok = true →
      match o.bind (·.create) with
      | none => s' (.object uuid) = s (.object uuid)
      | some _ => ∃ sync, (s (.object uuid)).setDirty.sync sync = (s' (.object uuid), true) := by
  cases o with
  | none => exact ensures_pure fun _ => rfl
  | some o =>
    refine (metadataCreateAuditLog_object o).bind fun ok s₁ h₁ => ?_
    cases ok with
    | false => exact ensures_pure nofun
    | true =>
      have hlog : Lockable.object uuid ≠ .auditLog o.log := by simp
      refine (logEvent_leaves hlog s₁).mono fun _ s₂ h₂ _ => ?_
      rw [h₂]
      exact h₁ rfl

theorem abacRefreshBouncerPolicyStore_refreshed (o : CheckOutcome) :
    Ensures (abacRefreshBouncerPolicyStore o) s fun ok _ =>
      ok = true → (s .policyStore).metadata ≠ none := by
  refine ensures_bind (ensures_get ?_)
  cases hm : (s .policyStore).metadata with
  | some m => exact fun _ _ _ _ => Option.some_ne_none m
  | none =>
    simp only [hm, Option.isSome_none, Bool.false_and, Bool.false_eq_true, if_false]
    refine ensures_bind (ensures_onObject ?_)
    cases ((s .policyStore).load nexusFread o.policyStore.read).2 with
    | false => exact ensures_pure nofun
    | true => exact ensures_bind ensures_failure

theorem createAbacRequest_made (o : CheckOutcome) :
    Ensures (createAbacRequest o) s fun ok _ => ok = true → ¬ NoRequest s := by
  have hspace := abacRefreshBouncerPolicyStore_leaves (x := .attributeSpace) (by simp) o s
  have hprofile := abacRefreshBouncerPolicyStore_leaves (x := .userProfile o.user) (by simp) o s
  refine ensures_bind
    (((abacRefreshBouncerPolicyStore_refreshed o).and (hspace.and hprofile)).mono ?_)
  rintro refreshed s₁ ⟨hpolicy, hspace, hprofile⟩
  cases refreshed with
  | false => exact ensures_pure nofun
  | true =>
    refine ensures_bind (ensures_onObject ?_)
    cases hread : ((s₁ .attributeSpace).acquire nexusFread o.attributeSpace).2 with
    | false => exact ensures_bind fun _ _ _ => ensures_pure nofun
    | true =>
      refine ensures_bind (ensures_onObject ?_)
      rw [update_of_ne (by simp)]
      cases hread' : ((s₁ (.userProfile o.user)).acquire nexusFread o.profile).2 with
      | false =>
        exact ensures_bind fun _ _ _ => ensures_bind fun _ _ _ => ensures_pure fun h =>
          absurd h Bool.false_ne_true
      | true =>
        intro _ _ _ _
        rintro (hnone | hunread | hunread)
        · exact hpolicy rfl hnone
        · rw [hspace, hunread.acquire] at hread
          cases hread
        · rw [hprofile, (hunread o.user).acquire] at hread'
          cases hread'

/-- A check leaves the object as it is, or syncs it to record its new log. -/
theorem bouncerAccessCheck_object (owner : Bool) (o : CheckOutcome) :
    Ensures (bouncerAccessCheck owner uuid o) s fun ok s' => ok = true →
      s' (.object uuid) = s (.object uuid) ∨ owner = false ∧ ¬ NoRequest s ∧
        ∃ sync, (s (.object uuid)).setDirty.sync sync = (s' (.object uuid), true) := by
  have hobject : Lockable.object uuid ∉ o.objects := by simp [CheckOutcome.objects]
  cases owner with
  | true => exact ensures_pure fun _ => .inl rfl
  | false =>
    refine ((createAbacRequest_made o).and
      (createAbacRequest_leaves o hobject s)).bind ?_
    rintro made s₁ ⟨hmade, h₁⟩
    cases made with
    | false => exact ensures_pure fun _ => .inl h₁
    | true =>
      have hdestroy := destroyAbacRequest_leaves o hobject
      simp only [Bool.not_true, Bool.false_eq_true, if_false]
      cases !o.facts || !o.permitted with
      | true => exact ensures_bind fun _ _ _ => ensures_pure (by simp)
      | false =>
        refine (auditAbacRequest_object o.audit).bind fun ok s₂ h₂ => ?_
        refine (hdestroy s₂).bind fun _ s₃ h₃ => ensures_pure fun hok => ?_
        have h₂ := h₂ hok
        rw [h₃, ← h₁]
        cases hlog : o.audit.bind (·.create) with
        | none => exact .inl (by rw [hlog] at h₂; exact h₂)
        | some new => exact .inr ⟨trivial, hmade rfl, by rw [hlog] at h₂; exact h₂⟩

/-! ## The first access that is audited -/

theorem returns_onObject {α : Type} {x : Lockable} {f : ObjectLocks → ObjectLocks × α}
    {Q : α → Locks → Prop} (h : Q (f (s x)).2 (update s x (f (s x)).1)) :
    Returns (onObject x f) s Q :=
  ⟨_, _, rfl, h⟩

theorem returns_modifyObject {x : Lockable} {f : ObjectLocks → ObjectLocks}
    {Q : Unit → Locks → Prop} (h : Q () (update s x (f (s x)))) :
    Returns (modifyObject x f) s Q :=
  returns_onObject h

/-- A store whose put succeeds. -/
def puts : PutOutcome := ⟨true, true, .ok, [], 1⟩

/-- Everything succeeds, and the object gets its log. -/
def firstAudit (user log : Uuid) : CheckOutcome where
  policyStore := opens
  updated := true
  attributeSpace := opens
  user := user
  profile := opens
  entity := true
  facts := true
  permitted := true
  audit := some ⟨log, some ⟨.ok, puts, [], ⟨.ok, puts, .ok⟩⟩, ⟨opens, opens.read⟩, true, puts⟩
  unlock := .ok

variable {user log : Uuid}

theorem createAbacRequest_firstAudit (hpolicy : (s .policyStore).metadata ≠ none)
    (hspace : ¬ (s .attributeSpace).Unreadable)
    (hprofile : ¬ (s (.userProfile user)).Unreadable) :
    Returns (createAbacRequest (firstAudit user log)) s fun ok _ => ok = true := by
  have hrefresh : Returns (abacRefreshBouncerPolicyStore (firstAudit user log)) s
      fun ok _ => ok = true := by
    refine returns_bind (returns_get ?_)
    have hsome := Option.isSome_iff_ne_none.mpr hpolicy
    dsimp only
    split
    · exact returns_pure rfl
    next hchanged =>
      have hclean : (s .policyStore).buffer.isDirty = false := by
        generalize s .policyStore = c at *
        obtain ⟨metadata, _ | b, remote⟩ := c
        · rfl
        · exact absurd hsome (by simpa [hasChanged, firstAudit, opens] using hchanged)
      refine returns_bind (returns_onObject ?_)
      simp only [load_of_get hclean (show opens.read.get = .ok from rfl), firstAudit,
        Option.isNone_eq_false_iff.mpr hsome]
      exact returns_pure rfl
  have hleaves := abacRefreshBouncerPolicyStore_leaves (x := .attributeSpace) (by simp)
    (firstAudit user log) s
  have hleaves' := abacRefreshBouncerPolicyStore_leaves (x := .userProfile user) (by simp)
    (firstAudit user log) s
  refine (hrefresh.ensures (hleaves.and hleaves')).bind ?_
  rintro _ s₁ ⟨rfl, h₁, h₁'⟩
  refine returns_bind (returns_onObject ?_)
  have hread : ((s₁ .attributeSpace).acquire nexusFread opens).2 = true := by
    rw [h₁]
    exact acquire_opens hspace
  simp only [firstAudit, hread]
  refine returns_bind (returns_onObject ?_)
  have hread' : ((s₁ (.userProfile user)).acquire nexusFread opens).2 = true := by
    rw [h₁']
    exact acquire_opens hprofile
  rw [update_of_ne (by simp), hread']
  exact returns_pure rfl

theorem store_puts {c : ObjectLocks} {m : MetadataLock} (hm : c.metadata = some m)
    (hmust : m.mustStore = true) (hmode : c.buffer.inWriteMode = true) :
    (c.store puts).2 = true := by
  simp only [store, hm, hmust, puts, c.buffer.allocPut_eq, hmode, Bool.not_true,
    Bool.false_eq_true, Bool.true_eq_false, if_false]
  by_cases hw : 1 < c.buffer.writers
  · rw [if_pos hw]
  · rw [if_neg hw]

theorem createObject_returns (x : Lockable) :
    Returns (createObject x .ok puts) s fun ok s' =>
      ok = true ∧ (s' x).metadata = none ∧ (s' x).buffer.isDirty = false := by
  refine returns_bind (returns_onObject ?_)
  refine returns_bind (returns_onObject ?_)
  refine returns_bind (returns_onObject (returns_pure ?_))
  simp only [update_self]
  exact ⟨rfl, rfl, rfl⟩

theorem auditAbacRequest_firstAudit {m : MetadataLock}
    (hm : (s (.object uuid)).metadata = some m) (hl : m.isLocked = true)
    (hmode : (s (.object uuid)).buffer.inWriteMode = true)
    (hflags : nexusIoInLockMode m.flags = false) :
    Returns (auditAbacRequest uuid (firstAudit user log).audit) s fun ok _ => ok = true := by
  have hne : Lockable.object uuid ≠ .auditLog log := by simp
  have hsync : ((s (.object uuid)).setDirty.sync ⟨.ok, puts, .ok⟩).2 = true := by
    have hdirty : (s (.object uuid)).setDirty.metadata = some { m with isDirty := true } := by
      simp [setDirty, hm]
    have hstore := store_puts hdirty rfl hmode
    simp only [sync, hdirty, hl, if_true]
    cases hres : (s (.object uuid)).setDirty.store puts with
    | mk c ok =>
      rw [hres] at hstore
      cases hstore
      simp [hflags]
  refine returns_bind (((createObject_returns (.auditLog log)).ensures
    (createObject_leaves hne _ _ s)).bind ?_)
  rintro _ s₁ ⟨⟨rfl, hlog, hclean⟩, h₁⟩
  refine returns_bind (returns_modifyObject (returns_bind (returns_get ?_)))
  have hbuckets : ∀ (reached : Bool) (s : Locks),
      Returns (storeOtherBuckets reached []) s fun ok s' => ok = true ∧ s' = s :=
    fun reached _ => by cases reached <;> exact returns_pure ⟨rfl, rfl⟩
  refine (hbuckets _ _).bind ?_
  rintro _ _ ⟨rfl, rfl⟩
  refine returns_onObject ?_
  simp only [update_self, h₁, PutOutcome.after, Bool.and_true, hsync]
  refine returns_bind (returns_onObject ?_)
  simp only [update_of_ne hne.symm]
  have hload : (s₁ (.auditLog log)).vfsLoad false nexusFrdwr ⟨opens, opens.read⟩ =
      (⟨some (.fromObject nexusFrdwr),
        opened nexusFrdwr (s₁ (.auditLog log)).buffer⟩, true) := by
    rw [vfsLoad, hlog]
    exact load_of_get hclean rfl nexusFrdwr
  simp only [hload]
  refine returns_bind (returns_modifyObject (returns_onObject ?_))
  simp only [update_self]
  exact store_puts rfl rfl (opened_mode _ _)

/-- The first access that is audited takes the lock of a copy that was read for
reading. -/
theorem firstAudit_loses_lock {m : MetadataLock} (hm : (s (.object uuid)).metadata = some m)
    (hl : m.isLocked = true) (hmode : (s (.object uuid)).buffer.inWriteMode = true)
    (hflags : nexusIoInLockMode m.flags = false) (hpolicy : (s .policyStore).metadata ≠ none)
    (hspace : ¬ (s .attributeSpace).Unreadable)
    (hprofile : ¬ (s (.userProfile user)).Unreadable) (log : Uuid) :
    Returns (bouncerAccessCheck false uuid (firstAudit user log)) s fun ok s' =>
      ok = true ∧ ¬ (s' (.object uuid)).LockedForWriting := by
  have hobject : Lockable.object uuid ∉ (firstAudit user log).objects := by
    simp [CheckOutcome.objects]
  refine ((createAbacRequest_firstAudit hpolicy hspace hprofile).ensures
    (createAbacRequest_leaves _ hobject s)).bind ?_
  rintro _ s₁ ⟨rfl, h₁⟩
  rw [← h₁] at hm hmode
  refine ((auditAbacRequest_firstAudit hm hl hmode hflags).ensures
    (auditAbacRequest_object _)).bind ?_
  rintro _ s₂ ⟨rfl, h₂⟩
  have hdestroy : Returns (destroyAbacRequest (firstAudit user log)) s₂ fun _ _ => True :=
    ⟨_, _, rfl, trivial⟩
  refine (hdestroy.ensures (destroyAbacRequest_leaves _ hobject s₂)).bind ?_
  rintro _ s₃ ⟨-, h₃⟩
  refine returns_pure ⟨rfl, fun hkept => ?_⟩
  rw [h₃] at hkept
  obtain ⟨_, hsync⟩ := h₂ rfl
  have hmode' := (sync_lockedForWriting_iff hm hl hsync).mp hkept
  rw [hflags] at hmode'
  cases hmode'

/-- For a session that is not the owner's, an access check that returns true leaves
an object locked for writing, so that a store can allocate its buffer, exactly if the
copy was read for writing, or no request can be made. -/
theorem accessCheck_keeps_lock_iff (s : Locks) (uuid : Uuid) (owner : Bool) (m : MetadataLock)
    (hm : (s (.object uuid)).metadata = some m)
    (hlocked : (s (.object uuid)).LockedForWriting) :
    (∀ o s', (bouncerAccessCheck owner uuid o).run s = some (true, s') →
      (s' (.object uuid)).LockedForWriting ∧
        ∀ bytes, (bufferLayerAlloc bytes true (s' (.object uuid)).buffer).2 = true) ↔
      owner = true ∨ nexusIoInLockMode m.flags = true ∨ NoRequest s := by
  have hl : m.isLocked = true := by
    obtain ⟨m', hm', hl⟩ := hlocked.locked
    cases hm.symm.trans hm'
    exact hl
  constructor
  · intro h
    cases owner with
    | true => exact .inl rfl
    | false =>
      refine .inr (Classical.byContradiction fun hnot => ?_)
      simp only [NoRequest, not_or, Bool.not_eq_true, not_forall] at hnot
      obtain ⟨hflags, hpolicy, hspace, user, hprofile⟩ := hnot
      obtain ⟨_, s', hrun, rfl, hlost⟩ :=
        firstAudit_loses_lock hm hl hlocked.mode hflags hpolicy hspace hprofile default
      exact hlost (h _ s' hrun).1
  · intro h o s' hrun
    have hkeeps : (s' (.object uuid)).LockedForWriting := by
      obtain hsame | ⟨rfl, hrequest, sync, hsync⟩ := bouncerAccessCheck_object owner o _ _ hrun rfl
      · rw [hsame]
        exact hlocked
      · refine (sync_lockedForWriting_iff hm hl hsync).mpr ?_
        exact (h.resolve_left Bool.false_ne_true).resolve_right hrequest
    exact ⟨hkeeps, alloc_of_inWriteMode hkeeps.mode⟩

/-- A client that has read the policy store, with this object. -/
def clientWith (object : ObjectLocks) : Locks :=
  let policyStore := ((unopened .policyStore).load nexusFread ⟨.ok, true⟩).1
  update (update unopened .policyStore policyStore) (.object 7) object

/-- An object that is loaded for writing. -/
def loadedForWriting : ObjectLocks := ((unopened (.object 7)).load nexusFrdwr ⟨.ok, true⟩).1

/-- An object that was loaded for reading, and that a revalidation locks. -/
def lockedByRevalidation : ObjectLocks :=
  (((unopened (.object 7)).load nexusFread ⟨.ok, true⟩).1.vfsLoad true nexusFrdwr
    ⟨opens, opens.read⟩).1

theorem loadedForWriting_keeps_lock :
    (clientWith loadedForWriting (.object 7)).LockedForWriting ∧
      ∀ o s', (bouncerAccessCheck false 7 o).run (clientWith loadedForWriting) = some (true, s') →
        (s' (.object 7)).LockedForWriting ∧
          ∀ bytes, (bufferLayerAlloc bytes true (s' (.object 7)).buffer).2 = true := by
  have hlocked : (clientWith loadedForWriting (.object 7)).LockedForWriting :=
    ⟨⟨_, rfl, rfl⟩, rfl, by decide⟩
  exact ⟨hlocked, (accessCheck_keeps_lock_iff _ 7 false _ rfl hlocked).mpr (.inr (.inl rfl))⟩

/-- The check returns true, and the store that follows fails. -/
theorem lockedByRevalidation_loses_lock :
    (clientWith lockedByRevalidation (.object 7)).LockedForWriting ∧
      ∃ s', (bouncerAccessCheck false 7 (firstAudit 1 2)).run (clientWith lockedByRevalidation) =
          some (true, s') ∧
        ¬ (s' (.object 7)).LockedForWriting ∧ ((s' (.object 7)).setDirty.store puts).2 = false :=
  ⟨⟨⟨_, rfl, rfl⟩, rfl, by decide⟩, _, rfl, fun h => absurd h.mode (by decide), by decide⟩

end Locking

end Nexus
