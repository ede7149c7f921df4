import Nexus.Ecalls.Tables

/-!
# The locks of an access check

An access check reads the policy store, the attribute space and the profile of the
user, and takes no lock for it.  If the access is to be recorded, it opens the
audit log of the object for writing, and only a store that succeeds gives the log
back.  An object that has no log is synced, and its buckets are stored with it.
-/

namespace Nexus.Locking

open Function Programs CheckOutcome

/-- How an access check ends. -/
inductive Verdict where
  /-- It does not return. -/
  | aborts
  /-- It fails, and the audit log or a bucket of the object stays locked. -/
  | leaks
  | denies
  | grants
  deriving DecidableEq, Repr

/-- The event is added to the log and stored, once the log is opened. -/
def AuditOutcome.logVerdict (o : AuditOutcome) : Ending → Verdict
  | .refused | .replaced => .denies
  | .orphaned => .leaks
  | .held => if o.added && o.put.succeeds then .grants else .leaks

/-- The sync of the object, after its buckets. -/
def NewLog.synced (o : NewLog) : SyncOutcome :=
  { o.sync with put := o.sync.put.after (bucketsStored o.buckets) }

/-- How the access is recorded, with the log and the object as they are before. -/
def AuditOutcome.verdict (log object : ObjectLocks) (o : AuditOutcome) : Verdict :=
  match o.create with
  | none => o.logVerdict (log.loadEnding false o.get)
  | some new =>
    if new.lock ≠ .ok then .aborts
    else if !new.put.succeeds then .leaks
    else if object.syncLocks new.sync.lock && !bucketsKept new.buckets then .leaks
    else if !object.syncs new.synced then .denies
    else o.logVerdict o.get.load.ending

/-- Whether the rules of the bouncer are brought up to date; `none` if that aborts. -/
def CheckOutcome.refreshed (c : ObjectLocks) (o : CheckOutcome) : Option Bool :=
  if c.metadata.isSome && !c.hasChanged o.policyStore then some o.updated
  else if o.policyStore.read.ending ≠ .held then some false
  else if c.metadata.isNone then none
  else some o.updated

/-- Whether the request is made; `none` if that aborts. -/
def CheckOutcome.requested (s : Locks) (o : CheckOutcome) : Option Bool :=
  (o.refreshed (s .policyStore)).map fun refreshed =>
    refreshed && (s .attributeSpace).readSucceeds o.attributeSpace &&
      (s (.userProfile o.user)).readSucceeds o.profile && o.entity

/-- How the check ends; a request that is not made is granted. -/
def CheckOutcome.verdict (owner : Bool) (s : Locks) (object : ObjectLocks) (o : CheckOutcome) :
    Verdict :=
  if owner then .grants
  else
    match o.requested s with
    | none => .aborts
    | some false => .grants
    | some true =>
      if !o.facts || !o.permitted then .denies
      else
        match o.audit with
        | none => .grants
        | some audit => audit.verdict (s (.auditLog audit.log)) object

/-- What a check that ends so returns and leaves behind. -/
def Verdict.Yields (uuid : Uuid) : Verdict → Bool → Locks → Prop
  | .aborts, _, _ => False
  | .leaks, ok, s => ok = false ∧ LeaksAside s
  | .denies, ok, s => ok = false ∧ ReadyIn [.object uuid] s
  | .grants, ok, s => ok = true ∧ ReadyIn [.object uuid] s

variable {s : Locks} {uuid : Uuid}

/-! ## Recording the access -/

theorem ensures_log (h : ReadyIn [.object uuid] s) (o : AuditOutcome) {e : Ending}
    (he : (s (.auditLog o.log)).loadEnding false o.get = e) :
    Ensures (do
      if !(← onObject (.auditLog o.log) (·.vfsLoad false nexusFrdwr o.get)) then return false
      if !o.added then return false
      markDirty (.auditLog o.log)
      flush (.auditLog o.log) o.put) s fun ok s' => (o.logVerdict e).Yields uuid ok s' := by
  have hlog := h.free (.auditLog o.log) (by simp)
  have hends := hlog.vfsLoad_ends false o.get
  rw [he] at hends
  refine ensures_bind (ensures_ending hends ?_ ?_ ?_ ?_)
  · rintro rfl hfree
    exact ensures_pure ⟨rfl, h.update_free _ hfree⟩
  · rintro rfl hlost
    exact ensures_pure ⟨rfl, leaksAside_update rfl hlost.writers⟩
  · rintro rfl hheld
    cases hadded : o.added with
    | false =>
      refine ensures_pure ?_
      simp only [AuditOutcome.logVerdict, hadded]
      exact ⟨rfl, leaksAside_update rfl (by simp [hheld.writers])⟩
    | true =>
      simp only [AuditOutcome.logVerdict, hadded]
      refine ensures_markDirty hheld fun c hc hmust => ensures_flush_update hc hmust o.put ?_ ?_
      · intro hput c' hc'
        simp only [hput, Bool.and_self, if_true]
        exact ⟨rfl, h.update_free _ hc'⟩
      · intro hput c' hc'
        simp only [hput, Bool.and_false, Bool.false_eq_true, if_false]
        exact ⟨rfl, leaksAside_update rfl (by simp [hc'.writers])⟩
  · rintro rfl hnew
    cases o.added with
    | false => exact ensures_pure ⟨rfl, h.update_free _ hnew.toFree⟩
    | true =>
      refine ensures_bind (ensures_modifyObject (ensures_onObject ?_))
      simp only [update_self, update_idem,
        ObjectLocks.setDirty_store_fails hnew.mode]
      exact ⟨rfl, h.update_free _ (hnew.setDirty.store o.put)⟩

/-- The object is changed and synced: a bucket is lost, or the sync is that of the main
object. -/
theorem markDirty_syncObject (h : ReadyIn [.object uuid] s) (new : NewLog) :
    Ensures (do
      markDirty (.object uuid)
      syncObject uuid new.buckets new.sync) s fun ok s' =>
        if (s (.object uuid)).syncLocks new.sync.lock && !bucketsKept new.buckets then
          ok = false ∧ LeaksAside s'
        else ok = (s (.object uuid)).syncs new.synced ∧ ReadyIn [.object uuid] s' := by
  have hdirty := h.modify (.object uuid) (f := (·.setDirty)) (·.setDirty) (·.setDirty)
  refine ensures_bind (ensures_modifyObject (ensures_bind (ensures_get ?_)))
  simp only [update_self, ObjectLocks.syncLocks_setDirty, ObjectLocks.skipsStore_setDirty,
    Bool.not_false, Bool.and_true]
  refine ((storeOtherBuckets_ensures hdirty (by simp) _ _).and
    (storeOtherBuckets_leaves (x := .object uuid) (by simp) _ _ _)).bind ?_
  rintro stored s₁ ⟨⟨rfl, h₁⟩, hsame⟩
  rw [update_self] at hsame
  have hresult := fun o => ((h.ready (.object uuid)).sync_setDirty o).2
  cases hlocks : (s (.object uuid)).syncLocks new.sync.lock with
  | false =>
    have hs₁ := h₁.1 (by simp [hlocks])
    refine ensures_onObject ⟨?_, hs₁.update_ready List.mem_cons_self ?_⟩
    · have hfails : ∀ put, (s (.object uuid)).syncs { new.sync with put := put } = false :=
        fun put => ObjectLocks.syncs_of_not_syncLocks (o := { new.sync with put := put }) hlocks
      rw [hsame, hresult]
      exact (hfails _).trans (hfails _).symm
    · rw [hsame]
      exact ((h.ready (.object uuid)).sync_setDirty _).1
  | true =>
    rw [hlocks] at h₁
    cases hkept : bucketsKept new.buckets with
    | false =>
      have hlost := h₁.2 (by simp [hkept])
      rw [bucketsStored_of_not_kept hkept]
      refine Ensures.and (ensures_onObject ?_) ((leavesAside_onObject rfl _).leaks hlost)
      rw [hsame, hresult]
      exact ObjectLocks.syncs_after_false _ _
    | true =>
      have hs₁ := h₁.1 (by simp [hkept])
      refine ensures_onObject ⟨?_, hs₁.update_ready List.mem_cons_self ?_⟩
      · rw [hsame, hresult]
        rfl
      · rw [hsame]
        exact ((h.ready (.object uuid)).sync_setDirty _).1

theorem metadataCreateAuditLog_ensures (h : ReadyIn [.object uuid] s) {o : AuditOutcome}
    {new : NewLog} (hnew : o.create = some new) {Q : Bool → Locks → Prop}
    (hleaks : new.lock = .ok → new.put.succeeds = false ∨ new.put.succeeds = true ∧
      ((s (.object uuid)).syncLocks new.sync.lock && !bucketsKept new.buckets) = true →
      ∀ s' : Locks, LeaksAside s' → Q false s')
    (hsync : new.lock = .ok → new.put.succeeds = true →
      ((s (.object uuid)).syncLocks new.sync.lock && !bucketsKept new.buckets) = false →
      ∀ s' : Locks, ReadyIn [.object uuid] s' → (s' (.auditLog o.log)).metadata = none →
        Q ((s (.object uuid)).syncs new.synced) s') :
    Ensures (metadataCreateAuditLog uuid o) s Q := by
  unfold metadataCreateAuditLog
  rw [hnew]
  refine ensures_bind (ensures_createObject (.auditLog o.log) new.lock new.put ?_ ?_)
  · -- the new log is stored before anything else
    intro hlock hput c hc hm
    have hne : Lockable.object uuid ≠ .auditLog o.log := by simp
    have hleaves : Leaves (.auditLog o.log) (do
        markDirty (.object uuid)
        syncObject uuid new.buckets new.sync) :=
      (leaves_modifyObject hne.symm _).bind fun _ => syncObject_leaves (by simp) hne.symm _ _
    refine ((markDirty_syncObject (h.update_free (.auditLog o.log) hc) new).and
      (hleaves _)).mono ?_
    rintro ok s' ⟨hs', hlog⟩
    rw [update_of_ne hne] at hs'
    rw [update_self] at hlog
    split at hs'
    next hlost =>
      rw [hs'.1]
      exact hleaks hlock (.inr ⟨hput, hlost⟩) s' hs'.2
    next hkept =>
      rw [hs'.1]
      exact hsync hlock hput (by simpa using hkept) s' hs'.2 (by rw [hlog]; exact hm)
  · intro hlock hput c hc
    exact ensures_pure (hleaks hlock (.inl hput) _ (leaksAside_update rfl hc.writers))

theorem auditAbacRequest_ensures (h : ReadyIn [.object uuid] s) (o : AuditOutcome) :
    Ensures (auditAbacRequest uuid (some o)) s fun ok s' =>
      (o.verdict (s (.auditLog o.log)) (s (.object uuid))).Yields uuid ok s' := by
  unfold auditAbacRequest AuditOutcome.verdict
  cases hnew : o.create with
  | none =>
    simp only [metadataCreateAuditLog, hnew]
    exact ensures_bind (ensures_pure (ensures_log h o rfl))
  | some new =>
    refine ensures_bind (metadataCreateAuditLog_ensures h hnew ?_ ?_)
    · intro hlock hlost s' hleak
      refine ensures_pure ?_
      obtain hput | ⟨hput, hbuckets⟩ := hlost
      · simp only [hlock, hput, ne_eq, not_true_eq_false, if_false, Bool.not_false, if_true]
        exact ⟨rfl, hleak⟩
      · simp only [hlock, hput, hbuckets, ne_eq, not_true_eq_false, if_false, Bool.not_true,
          Bool.false_eq_true, if_true]
        exact ⟨rfl, hleak⟩
    · intro hlock hput hbuckets s' h' hm
      simp only [hlock, hput, hbuckets, ne_eq, not_true_eq_false, if_false, Bool.not_true,
        Bool.false_eq_true]
      cases hsync : (s (.object uuid)).syncs new.synced with
      | false => exact ensures_pure ⟨rfl, h'⟩
      | true => exact ensures_log h' o (by simp [ObjectLocks.loadEnding, hm])

/-! ## The check -/

/-- Only these objects are changed. -/
def SameBeside (xs : List Lockable) (s s' : Locks) : Prop := ∀ x, x ∉ xs → s' x = s x

theorem SameBeside.refl (xs : List Lockable) (s : Locks) : SameBeside xs s s := fun _ _ => rfl

variable {s s' : Locks} {x : Lockable}

theorem SameBeside.update {xs : List Lockable} (h : SameBeside xs s s') (hx : x ∈ xs)
    (c : ObjectLocks) : SameBeside xs s (update s' x c) := by
  intro y hy
  have hne : y ≠ x := fun hyx => hy (hyx ▸ hx)
  rw [update_of_ne hne]
  exact h y hy

theorem abacRefreshBouncerPolicyStore_ensures (h : ReadyIn [.object uuid] s) (o : CheckOutcome) :
    Ensures (abacRefreshBouncerPolicyStore o) s fun ok s' =>
      o.refreshed (s .policyStore) = some ok ∧ ReadyIn [.object uuid] s' ∧
        SameBeside [.policyStore] s s' := by
  have hstore := h.free .policyStore (by simp)
  have hload := hstore.load_read ObjectLocks.lockMode_fread o.policyStore.read
  have hresult := ObjectLocks.load_succeeds hstore.clean nexusFread o.policyStore.read
  have hsame := SameBeside.refl [.policyStore] s
  unfold abacRefreshBouncerPolicyStore refreshed
  refine ensures_bind (ensures_get ?_)
  dsimp only
  cases hchanged : (s .policyStore).metadata.isSome && !(s .policyStore).hasChanged o.policyStore with
  | true => exact ensures_pure ⟨rfl, h, hsame⟩
  | false =>
    simp only [Bool.false_eq_true, if_false]
    refine ensures_bind (ensures_onObject ?_)
    rw [hresult]
    by_cases hread : o.policyStore.read.ending = .held
    · simp only [hread, decide_true, Bool.not_true, Bool.false_eq_true, if_false, ne_eq,
        not_true_eq_false]
      cases hm : (s .policyStore).metadata with
      | none => exact ensures_bind ensures_failure
      | some m =>
        simp only [Option.isNone_some, Bool.false_eq_true, if_false]
        cases o.updated with
        | true => exact ensures_pure ⟨rfl, h.update_free _ hload, hsame.update (by simp) _⟩
        | false =>
          refine ensures_bind (ensures_modifyObject (ensures_pure ⟨rfl, ?_, ?_⟩))
          · rw [update_self, update_idem]
            exact h.update_free _ ⟨hload.writers, hload.clean, fun m' hm' =>
              hstore.opened m' (hm.trans hm')⟩
          · exact (hsame.update (by simp) _).update (by simp) _
    · simp only [hread, decide_false, Bool.not_false, if_true, ne_eq, not_false_eq_true]
      exact ensures_pure ⟨rfl, h.update_free _ hload, hsame.update (by simp) _⟩

/-- The objects that an access check reads. -/
def CheckOutcome.objects (o : CheckOutcome) : List Lockable :=
  [.policyStore, .attributeSpace, .userProfile o.user]

/-- What the check reads is free, and nothing else is changed. -/
structure Checking (o : CheckOutcome) (uuid : Uuid) (s s' : Locks) : Prop where
  ready : ReadyIn [.object uuid] s'
  same : SameBeside o.objects s s'

variable {o : CheckOutcome}

theorem Checking.update (h : Checking o uuid s s') (hx : x ∈ o.objects) {c : ObjectLocks}
    (hc : c.Free) :
    Checking o uuid s (update s' x c) :=
  ⟨h.ready.update_free x hc, h.same.update hx c⟩

theorem Checking.release (h : Checking o uuid s s') (hx : x ∈ o.objects) (r : OcallResult) :
    Ensures (release x r) s' fun _ s'' => Checking o uuid s s'' :=
  ensures_release (h.ready.ready x) r fun _ hc => h.update hx hc

theorem Checking.destroy (h : Checking o uuid s s') :
    Ensures (destroyAbacRequest o) s' fun _ s'' => Checking o uuid s s'' := by
  unfold destroyAbacRequest
  refine (h.release (by simp [objects]) _).bind fun _ s₁ h₁ => ?_
  refine (h₁.release (by simp [objects]) _).bind fun _ s₂ h₂ => ?_
  exact h₂.release (by simp [objects]) _

theorem createAbacRequest_ensures (h : ReadyIn [.object uuid] s) (o : CheckOutcome) :
    Ensures (createAbacRequest o) s fun ok s' =>
      o.requested s = some ok ∧ Checking o uuid s s' := by
  unfold createAbacRequest requested
  refine (abacRefreshBouncerPolicyStore_ensures h o).bind ?_
  rintro ok s₁ ⟨hrefreshed, h₁, hsame⟩
  have hspace : s₁ .attributeSpace = s .attributeSpace := hsame _ (by simp)
  have hprofile : s₁ (.userProfile o.user) = s (.userProfile o.user) := hsame _ (by simp)
  have hchecking : Checking o uuid s s₁ :=
    ⟨h₁, fun x hx => hsame x fun hmem => hx (by simp_all [objects])⟩
  rw [hrefreshed]
  cases ok with
  | false => exact ensures_pure ⟨rfl, hchecking⟩
  | true =>
    simp only [Bool.not_true, Bool.false_eq_true, if_false, Option.map_some, Bool.true_and]
    refine ensures_bind (ensures_acquire_fread (h₁.free _ (by simp)) o.attributeSpace
      fun a ha => ?_)
    have h₂ := hchecking.update (x := .attributeSpace) (by simp [objects]) ha
    rw [hspace]
    cases (s .attributeSpace).readSucceeds o.attributeSpace with
    | false =>
      exact (h₂.release (by simp [objects]) _).bind
        fun _ s₃ h₃ => ensures_pure ⟨rfl, h₃⟩
    | true =>
      simp only [Bool.not_true, Bool.false_eq_true, if_false, Bool.true_and]
      refine ensures_bind (ensures_acquire_fread (h₂.ready.free _ (by simp)) o.profile
        fun p hp => ?_)
      have h₃ := h₂.update (x := .userProfile o.user) (by simp [objects]) hp
      rw [update_of_ne (by simp), hprofile]
      cases (s (.userProfile o.user)).readSucceeds o.profile with
      | false =>
        refine (h₃.release (by simp [objects]) _).bind
          fun _ s₄ h₄ => ?_
        exact (h₄.release (by simp [objects]) _).bind
          fun _ s₅ h₅ => ensures_pure ⟨rfl, h₅⟩
      | true =>
        cases o.entity with
        | false => exact h₃.destroy.bind fun _ s₄ h₄ => ensures_pure ⟨rfl, h₄⟩
        | true => exact ensures_pure ⟨rfl, h₃⟩

theorem leaves_release {y : Lockable} (hxy : x ≠ y) (r : OcallResult) : Leaves x (release y r) :=
  leaves_modifyObject hxy _

theorem destroyAbacRequest_leaves (o : CheckOutcome) (hx : x ∉ o.objects) :
    Leaves x (destroyAbacRequest o) := by
  simp only [objects, List.mem_cons, List.not_mem_nil, or_false, not_or] at hx
  exact (leaves_release hx.1 _).bind fun _ => (leaves_release hx.2.1 _).bind fun _ =>
    leaves_release hx.2.2 _

theorem Verdict.Yields.destroy {v : Verdict} {ok : Bool} (h : v.Yields uuid ok s) :
    Ensures (destroyAbacRequest o) s fun _ s' => v.Yields uuid ok s' := by
  have hready : ReadyIn [.object uuid] s →
      Ensures (destroyAbacRequest o) s fun _ s' => ReadyIn [.object uuid] s' := fun hs =>
    (Checking.destroy ⟨hs, SameBeside.refl _ s⟩).mono fun _ _ h' => h'.ready
  cases v with
  | aborts => exact h.elim
  | leaks =>
    have hleaves : LeavesAside (destroyAbacRequest o) := fun x hx =>
      destroyAbacRequest_leaves o fun hmem => by
        simp only [objects, List.mem_cons, List.not_mem_nil, or_false] at hmem
        obtain rfl | rfl | rfl := hmem <;> cases hx
    exact (hleaves.leaks h.2).mono fun _ s' h' => ⟨h.1, h'⟩
  | denies | grants => exact (hready h.2).mono fun _ s' h' => ⟨h.1, h'⟩

theorem bouncerAccessCheck_ensures (h : ReadyIn [.object uuid] s) (owner : Bool)
    (o : CheckOutcome) :
    Ensures (bouncerAccessCheck owner uuid o) s fun ok s' =>
      (o.verdict owner s (s (.object uuid))).Yields uuid ok s' := by
  unfold bouncerAccessCheck verdict
  cases owner with
  | true => exact ensures_pure ⟨rfl, h⟩
  | false =>
    simp only [Bool.false_eq_true, if_false]
    refine (createAbacRequest_ensures h o).bind ?_
    rintro ok s₁ ⟨hrequested, h₁⟩
    rw [hrequested]
    cases ok with
    | false => exact ensures_pure ⟨rfl, h₁.ready⟩
    | true =>
      simp only [Bool.not_true, Bool.false_eq_true, if_false]
      cases hdenied : !o.facts || !o.permitted with
      | true => exact h₁.destroy.bind fun _ s₂ h₂ => ensures_pure ⟨rfl, h₂.ready⟩
      | false =>
        simp only [Bool.false_eq_true, if_false]
        cases o.audit with
        | none =>
          exact ensures_bind (ensures_pure (ensures_bind
            (h₁.destroy.mono fun _ s₂ h₂ => ensures_pure ⟨rfl, h₂.ready⟩)))
        | some audit =>
          have haudit := auditAbacRequest_ensures h₁.ready audit
          rw [h₁.same (.auditLog audit.log) (by simp [objects]),
            h₁.same (.object uuid) (by simp [objects])] at haudit
          exact haudit.bind fun ok s₂ h₂ => ensures_bind
            (h₂.destroy.mono fun _ s₃ h₃ => ensures_pure h₃)

/-! ### What a check does not touch -/

theorem abacRefreshBouncerPolicyStore_leaves (hx : x ≠ .policyStore) (o : CheckOutcome) :
    Leaves x (abacRefreshBouncerPolicyStore o) := by
  refine (leaves_get _).bind fun c => leaves_ite (leaves_pure _ _) ?_
  refine (leaves_onObject hx _).bind fun _ => leaves_ite (leaves_pure _ _) ?_
  have hrest : Leaves x (if (!o.updated) = true then do
      modifyObject .policyStore ({ · with metadata := (c .policyStore).metadata })
      pure false
    else pure true) :=
    leaves_ite ((leaves_modifyObject hx _).bind fun _ => leaves_pure _ _) (leaves_pure _ _)
  exact leaves_ite ((leaves_failure _).bind fun _ => hrest) hrest

theorem createAbacRequest_leaves (o : CheckOutcome) (hx : x ∉ o.objects) :
    Leaves x (createAbacRequest o) := by
  have hdestroy := destroyAbacRequest_leaves o hx
  simp only [objects, List.mem_cons, List.not_mem_nil, or_false, not_or] at hx
  obtain ⟨hpolicy, hspace, hprofile⟩ := hx
  refine (abacRefreshBouncerPolicyStore_leaves hpolicy o).bind fun _ =>
    leaves_ite (leaves_pure _ _) ?_
  refine (leaves_onObject hspace _).bind fun _ => leaves_ite ?_ ?_
  · exact (leaves_release hpolicy _).bind fun _ => leaves_pure _ _
  refine (leaves_onObject hprofile _).bind fun _ => leaves_ite ?_ ?_
  · exact (leaves_release hpolicy _).bind fun _ => (leaves_release hspace _).bind fun _ =>
      leaves_pure _ _
  exact leaves_ite (hdestroy.bind fun _ => leaves_pure _ _) (leaves_pure _ _)

theorem createObject_leaves {y : Lockable} (hxy : x ≠ y) (lock : OcallResult)
    (put : PutOutcome) : Leaves x (createObject y lock put) := by
  refine (leaves_onObject hxy _).bind fun ok => ?_
  have hrest : Leaves x (do
      let ok ← flush y put
      modifyObject y (·.free)
      pure ok) :=
    (leaves_onObject hxy _).bind fun ok => (leaves_modifyObject hxy _).bind fun _ =>
      leaves_pure x ok
  cases ok with
  | false => exact (leaves_failure x).bind fun _ => hrest
  | true => exact hrest

theorem logEvent_leaves {o : AuditOutcome} (hlog : x ≠ .auditLog o.log) :
    Leaves x (do
      if !(← onObject (.auditLog o.log) (·.vfsLoad false nexusFrdwr o.get)) then return false
      if !o.added then return false
      markDirty (.auditLog o.log)
      flush (.auditLog o.log) o.put) := by
  refine (leaves_onObject hlog _).bind fun _ => leaves_ite (leaves_pure _ _) ?_
  refine leaves_ite (leaves_pure _ _) ?_
  exact (leaves_modifyObject hlog _).bind fun _ => leaves_onObject hlog _

theorem auditAbacRequest_leaves (uuid : Uuid) (o : Option AuditOutcome) :
    Leaves .hardlinkTable (auditAbacRequest uuid o) := by
  cases o with
  | none => exact leaves_pure _ _
  | some o =>
    have hlog : Lockable.hardlinkTable ≠ .auditLog o.log := by simp
    have hobject : Lockable.hardlinkTable ≠ .object uuid := by simp
    have hcreate : Leaves .hardlinkTable (metadataCreateAuditLog uuid o) := by
      unfold metadataCreateAuditLog
      cases o.create with
      | none => exact leaves_pure _ _
      | some new =>
        refine (createObject_leaves hlog new.lock new.put).bind fun ok => leaves_ite ?_ ?_
        · exact leaves_pure _ _
        · exact (leaves_modifyObject hobject _).bind fun _ => syncObject_leaves (by simp) hobject _ _
    exact hcreate.bind fun _ => leaves_ite (leaves_pure _ _) (logEvent_leaves hlog)

theorem bouncerAccessCheck_leaves (owner : Bool) (uuid : Uuid) (o : CheckOutcome) :
    Leaves .hardlinkTable (bouncerAccessCheck owner uuid o) := by
  have hobjects : Lockable.hardlinkTable ∉ o.objects := by simp [objects]
  have hdestroy := destroyAbacRequest_leaves o hobjects
  unfold bouncerAccessCheck
  refine leaves_ite (leaves_pure _ _) ?_
  refine (createAbacRequest_leaves o hobjects).bind fun _ => leaves_ite (leaves_pure _ _) ?_
  refine leaves_ite (hdestroy.bind fun _ => leaves_pure _ _) ?_
  exact (auditAbacRequest_leaves uuid o.audit).bind fun _ => hdestroy.bind fun _ =>
    leaves_pure _ _

end Nexus.Locking
