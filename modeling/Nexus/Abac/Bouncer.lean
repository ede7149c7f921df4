import Nexus.Abac.Knowledge
import Nexus.Metadata
import Nexus.Lib.Lru

/-!
# The bouncer

`bouncer.c` decides whether a user may do something to an object.  A check
first builds a request: it refreshes the policy store, acquires the attribute
space and the profile of the current user, and finds or creates the knowledge
base entity of the object.  It then brings the facts about the user and the
object up to date, asks the engine for `perm(user, object)`, and writes an
audit record if the policies ask for one.

Every step can fail.  `Acquire` holds the outcomes of the steps that build the
request, `Evaluate` those of the steps after it; a function of the model takes
the outcomes it consults.  The bouncer's static variables are the fields of
`Bouncer`, for a session that has been mounted: the mount loads the attribute
space and the policy store before the first check.
-/

namespace Nexus.Abac

/-! ## Data -/

/-- `attribute_type_t`. -/
inductive AttributeType where
  | user
  | object
  deriving DecidableEq, Repr

/-- `struct attribute_schema`: one attribute of the attribute space. -/
structure AttributeSchema where
  uuid : Uuid
  name : String
  type : AttributeType
  deriving DecidableEq, Repr

/-- The schemas of `struct attribute_space`. -/
abbrev AttributeSpace := List AttributeSchema

/-- `attribute_space_find_uuid`. -/
def attributeSpaceFindUuid (space : AttributeSpace) (uuid : Uuid) :
    Option AttributeSchema :=
  space.find? fun schema => schema.uuid = uuid

/-- What the bouncer reads of an attribute table: attribute uuids and values, in
the order the table's iterator visits them. -/
abbrev Attributes := List (Uuid × String)

/-- `struct kb_entity`. -/
structure KbEntity where
  uuid : Uuid
  metadataVersion : Nat
  type : AttributeType
  deriving DecidableEq, Repr

/-- `kb_entity_new`. -/
def kbEntityNew (uuid : Uuid) (type : AttributeType) : KbEntity :=
  { uuid, metadataVersion := 0, type }

/-- The object of a check: the metadata of a dirnode or filenode, with its first
dentry as the names on the path from the root. -/
structure ObjectMetadata where
  uuid : Uuid
  version : Nat
  isDir : Bool
  size : Nat
  dentry : Option (List String)
  attributes : Attributes
  hasAuditLog : Bool
  deriving DecidableEq, Repr

/-- The static state of `bouncer.c` and `runtime.c` in a mounted session. -/
structure Bouncer where
  isOwner : Bool
  userName : String
  policyStoreMetadata : Metadata (List PolicyRule)
  attributeSpaceMetadata : Metadata AttributeSpace
  currentUserprofileMetadata : Option (Metadata Attributes)
  policyStoreCachedVersion : Nat
  userProfileEntity : KbEntity
  cachedObjEntities : List KbEntity
  db : Kb
  deriving DecidableEq, Repr

/-- The outcomes of the steps that build a request. -/
structure Acquire where
  policyStore : Answers (List PolicyRule)
  attributeSpace : Answers AttributeSpace
  userProfile : Answers Attributes
  /-- The order of the clauses in their tables when the rules are cleared. -/
  order : Clause → Nat
  /-- `dl_assert` on the translation of a rule. -/
  assertRule : PolicyRule → Bool
  /-- `nexus_lru_put`. -/
  lruPut : Bool
  /-- `db_evict_entity` on the entity the LRU gives up. -/
  evictVictim : KbEntity → Bool

/-- The outcomes of the steps after the request is built. -/
structure Evaluate where
  /-- `db_evict_entity`. -/
  evict : Kb → KbEntity → Bool
  /-- `db_assert_fact`. -/
  assertFact : Kb → Clause → Bool
  /-- `datalog_engine_is_true` on `perm(user, object)`. -/
  isTrue : Kb → Perm → KbEntity → KbEntity → Bool
  /-- `metadata_create_audit_log` when the object has no audit log yet. -/
  createAuditLog : Bool
  /-- `metadata_get_audit_log`. -/
  getAuditLog : Bool
  /-- `audit_log_add_event`. -/
  addEvent : Bool
  /-- `nexus_metadata_store` of the audit log. -/
  storeAuditLog : Bool

/-! ## System functions -/

/-- The user entries of the table `system_functions`; `@upkey` has no value. -/
def userSystemFunctions (name : String) : List (String × Option String) :=
  [("@uname", some name), ("@upkey", none)]

/-- `dentry_get_fullpath`. -/
def dentryGetFullpath (names : List String) : String :=
  if names = [] then "/" else String.join (names.map ("/" ++ ·))

/-- `__handle_odirname`: the name of the parent, or `/` in the root. -/
def handleOdirname (names : List String) : String :=
  (names.dropLast.getLast?).getD "/"

/-- `__handle_osize`: the file size or the entry count is passed on as an `int`. -/
def handleOsize (size : Nat) : AbacValue := .number (BitVec.ofNat 32 size).toInt

/-- The object entries of the table `system_functions`. -/
def objSystemFunctions (obj : ObjectMetadata) : List (String × Option String) :=
  [("@opath", obj.dentry.map dentryGetFullpath),
   ("@oname", obj.dentry.map fun names => names.getLast?.getD "/"),
   ("@osize", some (handleOsize obj.size).stringify),
   ("@otype", some (if obj.isDir then "dir" else "file")),
   ("@odirname", obj.dentry.map handleOdirname)]

/-! ## Facts -/

/-- `db_assert_kb_entity_type`. -/
def entityTypeFact (entity : KbEntity) : Clause :=
  dbFact entity.uuid (match entity.type with | .user => "_isUser" | .object => "_isObject") ""

/-- `__insert_system_functions`: a function without a value is skipped. -/
def systemFunctionFacts (entity : KbEntity) (functions : List (String × Option String)) :
    List Clause :=
  functions.filterMap fun f => f.2.map (dbFact entity.uuid f.1)

/-- `__insert_attribute_table`: an entry whose uuid is not in the attribute
space is skipped. -/
def attributeTableFacts (entity : KbEntity) (space : AttributeSpace)
    (attributes : Attributes) : List Clause :=
  attributes.filterMap fun entry =>
    (attributeSpaceFindUuid space entry.1).map fun schema =>
      dbFact entity.uuid schema.name entry.2

/-- All facts about an entity, in the order they are asserted. -/
def entityFacts (entity : KbEntity) (space : AttributeSpace) (attributes : Attributes)
    (functions : List (String × Option String)) : List Clause :=
  entityTypeFact entity ::
    (systemFunctionFacts entity functions ++ attributeTableFacts entity space attributes)

/-- Assert facts until one fails. -/
def assertFacts (ev : Evaluate) : List Clause → Kb → Kb × Bool
  | [], kb => (kb, true)
  | c :: cs, kb => if ev.assertFact kb c then assertFacts ev cs (kb.assert c) else (kb, false)

/-- `__abac_request_insert_facts`: nothing is done when the entity was last
filled from the same non-zero version. -/
def abacRequestInsertFacts (ev : Evaluate) (space : AttributeSpace) (entity : KbEntity)
    (version : Nat) (attributes : Attributes)
    (functions : List (String × Option String)) (kb : Kb) : Kb × KbEntity × Bool :=
  if version ≠ 0 ∧ version = entity.metadataVersion then (kb, entity, true)
  else if !ev.evict kb entity then (kb, entity, false)
  else
    let (kb', ok) := assertFacts ev (entityFacts entity space attributes functions)
      (kb.evictEntity entity.uuid)
    if ok then (kb', { entity with metadataVersion := version }, true)
    else (kb', entity, false)

/-! ## Building the request -/

/-- `struct abac_request`: what the later steps read of it. -/
structure AbacRequest where
  attributeSpace : AttributeSpace
  usrMetadata : Metadata Attributes
  objEntity : Option KbEntity

/-- The loop of `bouncer_update_policy_store`. -/
def assertPolicyRules (ok : PolicyRule → Bool) : List PolicyRule → Kb → Kb × Bool
  | [], kb => (kb, true)
  | rule :: rules, kb =>
    match policyRuleToDb rule with
    | none => (kb, false)
    | some c => if ok rule then assertPolicyRules ok rules (kb.assert c) else (kb, false)

/-- `bouncer_update_policy_store`. -/
def bouncerUpdatePolicyStore (acq : Acquire) (s : Bouncer)
    (policyStore : Metadata (List PolicyRule)) : Bouncer × Bool :=
  if s.isOwner then (s, true)
  else if s.policyStoreCachedVersion = policyStore.version then (s, true)
  else
    let (db, ok) := assertPolicyRules acq.assertRule policyStore.object
      (s.db.clearRules acq.order)
    if ok then ({ s with db, policyStoreCachedVersion := policyStore.version }, true)
    else ({ s with db }, false)

/-- `abac_refresh_bouncer_policy_store`. -/
def abacRefreshBouncerPolicyStore (acq : Acquire) (s : Bouncer) : Bouncer × Bool :=
  if !nexusMetadataHasChanged s.policyStoreMetadata acq.policyStore then
    bouncerUpdatePolicyStore acq s s.policyStoreMetadata
  else
    match nexusMetadataLoad acq.policyStore with
    | none => (s, false)
    | some m =>
      let (s', ok) := bouncerUpdatePolicyStore acq s m
      if ok then ({ s' with policyStoreMetadata := m }, true) else (s', false)

/-- `abac_acquire_attribute_space`. -/
def abacAcquireAttributeSpace (acq : Acquire) (s : Bouncer) : Bouncer × Bool :=
  let (m, ok) := nexusMetadataRevalidate s.attributeSpaceMetadata acq.attributeSpace
  ({ s with attributeSpaceMetadata := m }, ok)

/-- `abac_acquire_current_user_profile`. -/
def abacAcquireCurrentUserProfile (acq : Acquire) (s : Bouncer) :
    Bouncer × Option (Metadata Attributes) :=
  let (kept, result) := acquireMetadata s.currentUserprofileMetadata acq.userProfile
  ({ s with currentUserprofileMetadata := kept }, result)

/-- The capacity of `cached_obj_entities`. -/
def objEntityCapacity : Nat := 16

/-- The cached entity of an object, if there is one. -/
def findObjEntity (s : Bouncer) (uuid : Uuid) : Option KbEntity :=
  s.cachedObjEntities.find? fun e => e.uuid = uuid

/-- The entity that leaves the cache when a new one enters it. -/
def lruVictim (s : Bouncer) (uuid : Uuid) : Option KbEntity :=
  if (findObjEntity s uuid).isSome then none
  else (Lru.put objEntityCapacity (kbEntityNew uuid .object) s.cachedObjEntities).2

/-- `__cache_obj_entity`, with `__evict_obj_entity` on the entity the LRU gives
up; the result of that eviction is dropped. -/
def cacheObjEntity (acq : Acquire) (s : Bouncer) (uuid : Uuid) : Bouncer × Option KbEntity :=
  match findObjEntity s uuid with
  | some entity =>
    ({ s with cachedObjEntities := Lru.touch KbEntity.uuid uuid s.cachedObjEntities },
      some entity)
  | none =>
    let entity := kbEntityNew uuid .object
    if !acq.lruPut then (s, none)
    else
      let (kept, victim) := Lru.put objEntityCapacity entity s.cachedObjEntities
      let db :=
        match victim with
        | some v => if acq.evictVictim v then s.db.evictEntity v.uuid else s.db
        | none => s.db
      ({ s with cachedObjEntities := kept, db }, some entity)

/-- `__create_abac_request`; `none` is the `NULL` result. -/
def createAbacRequest (acq : Acquire) (s : Bouncer) (obj : Option ObjectMetadata) :
    Bouncer × Option AbacRequest :=
  let refresh := abacRefreshBouncerPolicyStore acq s
  if !refresh.2 then (refresh.1, none)
  else
    let space := abacAcquireAttributeSpace acq refresh.1
    if !space.2 then (space.1, none)
    else
      let profile := abacAcquireCurrentUserProfile acq space.1
      match profile.2, obj with
      | none, _ => (profile.1, none)
      | some usrMetadata, none =>
        (profile.1, some
          { attributeSpace := profile.1.attributeSpaceMetadata.object, usrMetadata,
            objEntity := none })
      | some usrMetadata, some obj =>
        let cached := cacheObjEntity acq profile.1 obj.uuid
        (cached.1, cached.2.map fun entity =>
          { attributeSpace := profile.1.attributeSpaceMetadata.object, usrMetadata,
            objEntity := some entity })

/-! ## The check -/

/-- The value of a `bool` function that returns an `int`. -/
def boolOfInt (i : Int) : Bool := decide (i ≠ 0)

/-- Step 1 of the check: bring the facts about the user up to date. -/
def insertUserFacts (ev : Evaluate) (s : Bouncer) (req : AbacRequest) :
    Kb × KbEntity × Bool :=
  abacRequestInsertFacts ev req.attributeSpace s.userProfileEntity req.usrMetadata.version
    req.usrMetadata.object (userSystemFunctions s.userName) s.db

/-- Step 2 of the check: bring the facts about the object up to date. -/
def insertObjFacts (ev : Evaluate) (req : AbacRequest) (entity : KbEntity)
    (obj : ObjectMetadata) (kb : Kb) : Kb × KbEntity × Bool :=
  abacRequestInsertFacts ev req.attributeSpace entity obj.version obj.attributes
    (objSystemFunctions obj) kb

/-- `__audit_abac_request`.  Creating the audit log stores the object, which
raises its version. -/
def auditAbacRequest (ev : Evaluate) (kb : Kb) (user entity : KbEntity)
    (obj : ObjectMetadata) : ObjectMetadata × Bool :=
  if !ev.isTrue kb .audit user entity then (obj, true)
  else if !obj.hasAuditLog && !ev.createAuditLog then (obj, false)
  else
    let obj := if obj.hasAuditLog then obj
      else { obj with hasAuditLog := true, version := obj.version + 1 }
    (obj, ev.getAuditLog && ev.addEvent && ev.storeAuditLog)

/-- The part of `bouncer_access_check` after the request is built. -/
def evaluateRequest (ev : Evaluate) (s : Bouncer) (req : AbacRequest) (entity : KbEntity)
    (obj : ObjectMetadata) (perm : Perm) : Bouncer × ObjectMetadata × Bool :=
  let (kb, user, ok) := insertUserFacts ev s req
  let s := { s with db := kb, userProfileEntity := user }
  if !ok then (s, obj, false)
  else
    let (kb, entity, ok) := insertObjFacts ev req entity obj kb
    let s := { s with
      db := kb
      cachedObjEntities :=
        Lru.update KbEntity.uuid entity.uuid (fun _ => entity) s.cachedObjEntities }
    if !ok then (s, obj, false)
    else if !ev.isTrue kb perm user entity then (s, obj, false)
    else
      let (obj, ok) := auditAbacRequest ev kb user entity obj
      if !ok then (s, obj, false) else (s, obj, true)

/-- `bouncer_access_check`: the state, the object's metadata and the answer
after the check.  A request that cannot be built returns `-1`. -/
def bouncerAccessCheck (acq : Acquire) (ev : Evaluate) (s : Bouncer) (obj : ObjectMetadata)
    (perm : Perm) : Bouncer × ObjectMetadata × Bool :=
  if s.isOwner then (s, obj, true)
  else
    match createAbacRequest acq s (some obj) with
    | (s, none) => (s, obj, boolOfInt (-1))
    | (s, some req) =>
      -- a request built for an object always has its entity
      match req.objEntity with
      | none => (s, obj, boolOfInt (-1))
      | some entity => evaluateRequest ev s req entity obj perm

end Nexus.Abac
