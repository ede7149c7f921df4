import Nexus.Abac.Bouncer

/-!
# When an access check fails closed

An access check should say yes only if nothing failed on the way and the engine
proved the goal.  `StepsSucceed` says exactly that about one check.  The exits
after the request is built all return `false`.  The exit for a request that
could not be built returns `-1` from a `bool` function, which is `true`, and a
few failures inside the request are dropped.  So a check fails closed for every
outcome of its later steps exactly when every acquisition succeeds.
-/

namespace Nexus.Abac

/-! ## Building the request touches only its own parts -/

theorem bouncerUpdatePolicyStore_frame (acq : Acquire) (s : Bouncer)
    (m : Metadata (List PolicyRule)) :
    ∃ db version, (bouncerUpdatePolicyStore acq s m).1 =
      { s with db := db, policyStoreCachedVersion := version } := by
  unfold bouncerUpdatePolicyStore
  split
  · exact ⟨s.db, s.policyStoreCachedVersion, rfl⟩
  split
  · exact ⟨s.db, s.policyStoreCachedVersion, rfl⟩
  dsimp only
  split
  · exact ⟨_, _, rfl⟩
  · exact ⟨_, s.policyStoreCachedVersion, rfl⟩

/-- Refreshing the policy store changes the copy of the policy store, the rules
and the recorded version, and nothing else. -/
theorem abacRefreshBouncerPolicyStore_frame (acq : Acquire) (s : Bouncer) :
    ∃ m db version, (abacRefreshBouncerPolicyStore acq s).1 =
      { s with policyStoreMetadata := m, db := db, policyStoreCachedVersion := version } := by
  unfold abacRefreshBouncerPolicyStore
  split
  · obtain ⟨db, version, h⟩ := bouncerUpdatePolicyStore_frame acq s s.policyStoreMetadata
    exact ⟨s.policyStoreMetadata, db, version, h⟩
  split
  · exact ⟨s.policyStoreMetadata, s.db, s.policyStoreCachedVersion, rfl⟩
  next m _ =>
    obtain ⟨db, version, h⟩ := bouncerUpdatePolicyStore_frame acq s m
    dsimp only
    split
    · exact ⟨m, db, version, by rw [h]⟩
    · exact ⟨s.policyStoreMetadata, db, version, h⟩

/-- The object's entity is available: it is cached, or the LRU takes it. -/
def ObjEntityCached (acq : Acquire) (s : Bouncer) (obj : ObjectMetadata) : Prop :=
  (findObjEntity s obj.uuid).isSome ∨ acq.lruPut = true

theorem cacheObjEntity_isSome_iff (acq : Acquire) (s : Bouncer) (obj : ObjectMetadata) :
    (cacheObjEntity acq s obj.uuid).2.isSome ↔ ObjEntityCached acq s obj := by
  unfold cacheObjEntity ObjEntityCached
  cases hfind : findObjEntity s obj.uuid with
  | some entity => simp
  | none => cases hput : acq.lruPut <;> simp

/-! ## Success of the acquisitions -/

/-- Every step that builds the request succeeds, the ones whose failure the code
does not look at included. -/
structure AcquisitionsSucceed (acq : Acquire) (s : Bouncer) (obj : ObjectMetadata) :
    Prop where
  policyStoreStat : statAnswered s.policyStoreMetadata.timestamp acq.policyStore = true
  policyStore : (abacRefreshBouncerPolicyStore acq s).2 = true
  attributeSpaceStat :
    acquireStatAnswered (some s.attributeSpaceMetadata) acq.attributeSpace = true
  attributeSpace :
    (nexusMetadataRevalidate s.attributeSpaceMetadata acq.attributeSpace).2 = true
  userProfileStat : acquireStatAnswered s.currentUserprofileMetadata acq.userProfile = true
  userProfile : (acquireMetadata s.currentUserprofileMetadata acq.userProfile).2.isSome
  objEntity : ObjEntityCached acq s obj
  victim : ∀ v ∈ lruVictim s obj.uuid, acq.evictVictim v = true

/-- A request is built exactly when the four acquisitions report success. -/
theorem createAbacRequest_isSome_iff (acq : Acquire) (s : Bouncer) (obj : ObjectMetadata) :
    (createAbacRequest acq s (some obj)).2.isSome ↔
      (abacRefreshBouncerPolicyStore acq s).2 = true ∧
      (nexusMetadataRevalidate s.attributeSpaceMetadata acq.attributeSpace).2 = true ∧
      (acquireMetadata s.currentUserprofileMetadata acq.userProfile).2.isSome ∧
      ObjEntityCached acq s obj := by
  obtain ⟨m, db, version, hs⟩ := abacRefreshBouncerPolicyStore_frame acq s
  have hcached (s' : Bouncer) (h : s'.cachedObjEntities = s.cachedObjEntities) :
      (cacheObjEntity acq s' obj.uuid).2.isSome ↔ ObjEntityCached acq s obj := by
    rw [cacheObjEntity_isSome_iff, ObjEntityCached, ObjEntityCached, findObjEntity,
      findObjEntity, h]
  unfold createAbacRequest
  generalize abacRefreshBouncerPolicyStore acq s = refresh at hs
  obtain ⟨s₁, refreshed⟩ := refresh
  obtain rfl : s₁ = _ := hs
  cases refreshed with
  | false => simp
  | true =>
    cases hspace : (nexusMetadataRevalidate s.attributeSpaceMetadata acq.attributeSpace).2 with
    | false => simp [abacAcquireAttributeSpace, hspace]
    | true =>
      cases hprofile : (acquireMetadata s.currentUserprofileMetadata acq.userProfile).2 <;>
        simp [abacAcquireAttributeSpace, abacAcquireCurrentUserProfile, hspace, hprofile,
          hcached]

/-- When the request is built for an object it carries the object's entity. -/
theorem createAbacRequest_objEntity {acq : Acquire} {s s' : Bouncer} {obj : ObjectMetadata}
    {req : AbacRequest} (h : createAbacRequest acq s (some obj) = (s', some req)) :
    ∃ entity, req.objEntity = some entity := by
  simp only [createAbacRequest] at h
  split at h
  · simp at h
  split at h
  · simp at h
  split at h
  · simp at h
  · simp_all
  · simp only [Prod.mk.injEq, Option.map_eq_some_iff] at h
    obtain ⟨-, entity, -, rfl⟩ := h
    exact ⟨entity, rfl⟩

/-! ## The rest of the check -/

/-- Every step of a check succeeds and the engine proves `perm(user, object)`. -/
def StepsSucceed (acq : Acquire) (ev : Evaluate) (s : Bouncer) (obj : ObjectMetadata)
    (perm : Perm) : Prop :=
  AcquisitionsSucceed acq s obj ∧
  ∃ s' req entity, createAbacRequest acq s (some obj) = (s', some req) ∧
    req.objEntity = some entity ∧
    let user := insertUserFacts ev s' req
    let object := insertObjFacts ev req entity obj user.1
    user.2.2 = true ∧ object.2.2 = true ∧
      ev.isTrue object.1 perm user.2.1 object.2.1 = true ∧
      (auditAbacRequest ev object.1 user.2.1 object.2.1 obj).2 = true

/-- After the request is built, the check says yes exactly when the facts are
brought up to date, the goal is proved and the audit record is written. -/
theorem evaluateRequest_eq_true_iff (ev : Evaluate) (s : Bouncer) (req : AbacRequest)
    (entity : KbEntity) (obj : ObjectMetadata) (perm : Perm) :
    (evaluateRequest ev s req entity obj perm).2.2 = true ↔
      let user := insertUserFacts ev s req
      let object := insertObjFacts ev req entity obj user.1
      user.2.2 = true ∧ object.2.2 = true ∧
        ev.isTrue object.1 perm user.2.1 object.2.1 = true ∧
        (auditAbacRequest ev object.1 user.2.1 object.2.1 obj).2 = true := by
  unfold evaluateRequest
  generalize insertUserFacts ev s req = user
  obtain ⟨kb, u, ok⟩ := user
  cases ok with
  | false => simp
  | true =>
    dsimp only
    generalize insertObjFacts ev req entity obj kb = object
    obtain ⟨kb', o, ok'⟩ := object
    cases ok' with
    | false => simp
    | true =>
      generalize auditAbacRequest ev kb' u o obj = audit
      obtain ⟨obj', ok''⟩ := audit
      cases ev.isTrue kb' perm u o <;> cases ok'' <;> simp

/-- Outcomes of the later steps in which nothing fails and every goal holds. -/
def Evaluate.succeed : Evaluate where
  evict _ _ := true
  assertFact _ _ := true
  isTrue _ _ _ _ := true
  createAuditLog := true
  getAuditLog := true
  addEvent := true
  storeAuditLog := true

theorem assertFacts_succeed (cs : List Clause) (kb : Kb) :
    (assertFacts .succeed cs kb).2 = true := by
  induction cs generalizing kb with
  | nil => rfl
  | cons c cs ih => simpa [assertFacts, Evaluate.succeed] using ih _

theorem abacRequestInsertFacts_succeed (space : AttributeSpace) (entity : KbEntity)
    (version : Nat) (attributes : Attributes) (functions : List (String × Option String))
    (kb : Kb) :
    (abacRequestInsertFacts .succeed space entity version attributes functions kb).2.2
      = true := by
  unfold abacRequestInsertFacts
  split
  · rfl
  · have h := assertFacts_succeed (entityFacts entity space attributes functions)
      (kb.evictEntity entity.uuid)
    rw [if_neg (by simp [Evaluate.succeed])]
    simp [h]

theorem evaluateRequest_succeed (s : Bouncer) (req : AbacRequest) (entity : KbEntity)
    (obj : ObjectMetadata) (perm : Perm) :
    (evaluateRequest .succeed s req entity obj perm).2.2 = true := by
  rw [evaluateRequest_eq_true_iff]
  refine ⟨abacRequestInsertFacts_succeed .., abacRequestInsertFacts_succeed .., rfl, ?_⟩
  simp [auditAbacRequest, Evaluate.succeed]

/-- A check whose later steps all succeed says yes, whatever happened to its
acquisitions. -/
theorem bouncerAccessCheck_succeed (acq : Acquire) (s : Bouncer) (obj : ObjectMetadata)
    (perm : Perm) : (bouncerAccessCheck acq .succeed s obj perm).2.2 = true := by
  unfold bouncerAccessCheck
  split
  · rfl
  split
  · rfl
  split
  · rfl
  · exact evaluateRequest_succeed ..

/-! ## Failing closed -/

/-- For these acquisitions, and whatever the later steps do, a yes of the check
means that every step succeeded and the goal was proved. -/
def FailsClosed (acq : Acquire) (s : Bouncer) (obj : ObjectMetadata) (perm : Perm) : Prop :=
  ∀ ev, (bouncerAccessCheck acq ev s obj perm).2.2 = true → StepsSucceed acq ev s obj perm

/-- A check of a non-owner fails closed exactly when all its acquisitions
succeed. -/
theorem bouncerAccessCheck_failsClosed_iff (acq : Acquire) (s : Bouncer)
    (obj : ObjectMetadata) (perm : Perm) (howner : s.isOwner = false) :
    FailsClosed acq s obj perm ↔ AcquisitionsSucceed acq s obj := by
  constructor
  · intro hclosed
    exact (hclosed .succeed (bouncerAccessCheck_succeed acq s obj perm)).1
  · intro hacq ev hyes
    refine ⟨hacq, ?_⟩
    have hsome := (createAbacRequest_isSome_iff acq s obj).mpr
      ⟨hacq.policyStore, hacq.attributeSpace, hacq.userProfile, hacq.objEntity⟩
    obtain ⟨s', req, hreq⟩ : ∃ s' req, createAbacRequest acq s (some obj) = (s', some req) := by
      obtain ⟨req, h⟩ := Option.isSome_iff_exists.mp hsome
      exact ⟨_, req, Prod.ext rfl h⟩
    obtain ⟨entity, hentity⟩ := createAbacRequest_objEntity hreq
    refine ⟨s', req, entity, hreq, hentity, ?_⟩
    rw [bouncerAccessCheck, howner, hreq] at hyes
    simp only [Bool.false_eq_true, if_false, hentity] at hyes
    exact (evaluateRequest_eq_true_iff ev s' req entity obj perm).mp hyes

/-! ## A session to run the check in -/

/-- The session of a non-owner on a volume with no policies and no attributes. -/
def emptySession : Bouncer where
  isOwner := false
  userName := "bob"
  policyStoreMetadata := { object := [], version := 1, isInvalid := false, timestamp := some 1 }
  attributeSpaceMetadata :=
    { object := [], version := 1, isInvalid := false, timestamp := some 1 }
  currentUserprofileMetadata :=
    some { object := [], version := 1, isInvalid := false, timestamp := some 1 }
  policyStoreCachedVersion := 1
  userProfileEntity := kbEntityNew 7 .user
  cachedObjEntities := []
  db := ⟨[], []⟩

/-- A file in the root directory. -/
def sampleFile : ObjectMetadata where
  uuid := 9
  version := 1
  isDir := false
  size := 0
  dentry := some ["a"]
  attributes := []
  hasAuditLog := false

/-- Acquisitions that all succeed, on objects nobody has changed. -/
def unchangedAnswers : Acquire where
  policyStore := { stattime := some 1, object := some ⟨[], 1, 1⟩, uninit := false }
  attributeSpace := { stattime := some 1, object := some ⟨[], 1, 1⟩, uninit := false }
  userProfile := { stattime := some 1, object := some ⟨[], 1, 1⟩, uninit := false }
  order _ := 0
  assertRule _ := true
  lruPut := true
  evictVictim _ := true

theorem bouncerAccessCheck_failsClosed_unchanged :
    emptySession.isOwner = false ∧ AcquisitionsSucceed unchangedAnswers emptySession sampleFile ∧
      FailsClosed unchangedAnswers emptySession sampleFile .write := by
  have hacq : AcquisitionsSucceed unchangedAnswers emptySession sampleFile := by
    refine ⟨rfl, rfl, rfl, rfl, rfl, rfl, .inr rfl, ?_⟩
    intro v hv
    rfl
  exact ⟨rfl, hacq,
    (bouncerAccessCheck_failsClosed_iff unchangedAnswers emptySession sampleFile .write rfl).mpr
      hacq⟩

/-- The user's profile has changed and cannot be read again, and the engine proves
nothing: the request is not built, and the check says yes. -/
theorem bouncerAccessCheck_grants_without_profile :
    let acq := { unchangedAnswers with
      userProfile := { stattime := some 2, object := none, uninit := false } }
    let ev := { Evaluate.succeed with isTrue := fun _ _ _ _ => false }
    (createAbacRequest acq emptySession (some sampleFile)).2.isNone ∧
      (bouncerAccessCheck acq ev emptySession sampleFile .write).2.2 = true ∧
      ¬ StepsSucceed acq ev emptySession sampleFile .write := by
  refine ⟨rfl, rfl, ?_⟩
  rintro ⟨hacq, -⟩
  exact absurd hacq.userProfile (by decide)

end Nexus.Abac
