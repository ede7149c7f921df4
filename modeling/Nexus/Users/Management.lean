import Nexus.Storage.Acquire
import Nexus.Users.Identity

/-!
# Calls of user management that fail

`ecalls/users.c` changes the cached copy of the user table and stores it afterwards.  The
copy is shared with every later call, so what a call that fails has done to it is undone
only if the copy is read anew: `nexus_metadata_store` marks a copy that it cannot store as
invalid, and a copy that is not marked is kept.

* A user whose profile cannot be created stays in the copy, and the next call that succeeds
  stores it.
* A name that is not in the table leaves the table locked, so that the put of the next call
  is kept in the buffer and never written.
* A profile that cannot be deleted makes a removal fail that is already stored.

`failed_calls_leave_no_trace` says that these, and a copy that is rejected after it was
locked, are the only steps to fail with a trace.
-/

namespace Nexus.Users

open Runs ObjectLocks UserTable

/-- How the steps of an ecall on the user table end.  `deleted` is whether
`ocall_buffer_del` runs; its result is dropped. -/
structure ManageOutcome where
  owner : Bool
  acquire : RevalidateOutcome
  profileLock : OcallResult
  profilePut : PutOutcome
  put : PutOutcome
  deleted : Bool
  release : OcallResult

/-- The user table in a session: the locks of `user_table_metadata`, the copy that it has,
what the buffer layer keeps of it, and what the datastore has. -/
structure UserSession (Hash : Type) where
  locks : ObjectLocks
  table : UserTable Hash
  pending : UserTable Hash
  stored : UserTable Hash

namespace UserSession

variable {Key Hash : Type} [DecidableEq Hash] (keys : Pubkeys Key Hash) (s : UserSession Hash)

/-- What a get returns: the buffer of a put that was not written, or the file. -/
def fetched : UserTable Hash := if s.locks.buffer.isDirty then s.pending else s.stored

/-- `nexus_metadata_load`, and `nexus_metadata_reload` of a cached copy. -/
def load (flags : IoFlags) (o : ReadOutcome) : UserSession Hash × Bool :=
  match s.locks.load flags o with
  | (locks, false) => ({ s with locks }, false)
  | (locks, true) => ({ s with locks, table := s.fetched }, true)

/-- `nexus_vfs_acquire_user_table`. -/
def acquireUserTable (flags : IoFlags) (o : RevalidateOutcome) : UserSession Hash × Bool :=
  if s.locks.reads o then s.load flags o.read
  else if nexusIoInLockMode flags then
    match s.locks.lock flags o.lock with
    | (locks, ok) => ({ s with locks }, ok)
  else (s, true)

/-- `nexus_vfs_release_user_table`. -/
def releaseUserTable (r : OcallResult) : UserSession Hash :=
  { s with locks := s.locks.unlock r }

/-- The copy is changed and marked dirty. -/
def change (table : UserTable Hash) : UserSession Hash :=
  { s with locks := s.locks.setDirty, table }

/-- `nexus_vfs_flush_user_table`.  The put of one of several writers is only kept. -/
def flushUserTable (o : PutOutcome) : UserSession Hash × Bool :=
  match s.locks.store o with
  | (locks, false) => ({ s with locks }, false)
  | (locks, true) =>
    if !s.locks.mustStore then ({ s with locks }, true)
    else if 1 < s.locks.buffer.writers then ({ s with locks, pending := s.table }, true)
    else ({ s with locks, stored := s.table }, true)

/-- `abac_create_user_profile` for a uuid that is new.  If the object cannot be created, the
`NULL` that stands for it is freed, and the enclave is gone. -/
def abacCreateUserProfile (lock : OcallResult) (put : PutOutcome) : Option Bool :=
  let new : ObjectLocks := ⟨none, ⟨none, ⟨[], 0, false⟩⟩⟩
  match new.evict.create lock with
  | (_, false) => none
  | (c, true) => some (c.store put).2

/-- The start of the ecalls: only the owner gets the table, for writing. -/
def withUserTable (o : ManageOutcome)
    (body : UserSession Hash → Option (UserSession Hash × Bool)) :
    Option (UserSession Hash × Bool) :=
  if !o.owner then some (s, false)
  else
    match s.acquireUserTable nexusFrdwr o.acquire with
    | (s, false) => some (s, false)
    | (s, true) => body s

/-- `ecall_user_add`. -/
def ecallUserAdd (name pubkey : Bytes) (uuid : Uuid) (o : ManageOutcome) :
    Option (UserSession Hash × Bool) :=
  s.withUserTable o fun s =>
    match s.table.add keys name pubkey uuid with
    | none => some (s.releaseUserTable o.release, false)
    | some (table, _) =>
      let s := s.change table
      match abacCreateUserProfile o.profileLock o.profilePut with
      | none => none
      | some false => some (s.releaseUserTable o.release, false)
      | some true =>
        match s.flushUserTable o.put with
        | (s, ok) => some (s.releaseUserTable o.release, ok)

/-- The end of a removal: the table is stored and the profile deleted. -/
def finishRemove (table : UserTable Hash) (o : ManageOutcome) : UserSession Hash × Bool :=
  match (s.change table).flushUserTable o.put with
  | (s, false) => (s.releaseUserTable o.release, false)
  | (s, true) => (s.releaseUserTable o.release, o.deleted)

/-- `ecall_user_remove_username`.  If the name is not found it returns at once. -/
def ecallUserRemoveUsername (name : Bytes) (o : ManageOutcome) :
    Option (UserSession Hash × Bool) :=
  s.withUserTable o fun s =>
    match s.table.removeUsername name with
    | none => some (s, false)
    | some (table, _) => some (s.finishRemove table o)

/-- `ecall_user_remove_pubkey`. -/
def ecallUserRemovePubkey (pubkey : Bytes) (o : ManageOutcome) :
    Option (UserSession Hash × Bool) :=
  s.withUserTable o fun s =>
    match s.table.removePubkey keys pubkey with
    | none => some (s.releaseUserTable o.release, false)
    | some (table, _) => some (s.finishRemove table o)

/-- The ecall of an operation. -/
def manage (o : ManageOutcome) : TableCall → Option (UserSession Hash × Bool)
  | .add name pubkey uuid => s.ecallUserAdd keys name pubkey uuid o
  | .removeUsername name => s.ecallUserRemoveUsername name o
  | .removePubkey pubkey => s.ecallUserRemovePubkey keys pubkey o

/-- `ecall_user_find_username`, `ecall_user_find_pubkey` and `ecall_user_ls`: the table that
they look into. -/
def look (owner : Bool) (o : RevalidateOutcome) (release : OcallResult) :
    UserSession Hash × Option (UserTable Hash) :=
  if !owner then (s, none)
  else
    match s.acquireUserTable nexusFread o with
    | (s, false) => (s, none)
    | (s, true) => (s.releaseUserTable release, some s.table)

end UserSession

/-! ## The property -/

/-- What an operation makes of a table, or `none` if the table does not admit it. -/
def UserTable.attempt {Key Hash : Type} [DecidableEq Hash] (keys : Pubkeys Key Hash)
    (t : UserTable Hash) : TableCall → Option (UserTable Hash)
  | .add name pubkey uuid => (t.add keys name pubkey uuid).map Prod.fst
  | .removeUsername name => (t.removeUsername name).map Prod.fst
  | .removePubkey pubkey => (t.removePubkey keys pubkey).map Prod.fst

/-- Every step of the call goes through, but for what the table says. -/
structure ManageOutcome.Smooth (o : ManageOutcome) : Prop where
  owner : o.owner = true
  get : o.acquire.read.get = .ok
  parsed : o.acquire.read.parsed = true
  lock : o.acquire.lock = .ok
  profileLock : o.profileLock = .ok
  profilePut : o.profilePut.succeeds = true
  put : o.put.succeeds = true
  deleted : o.deleted = true

/-- The calls on the user table, with how their steps end. -/
inductive UserEvent where
  | manage (call : TableCall) (o : ManageOutcome)
  | look (owner : Bool) (o : RevalidateOutcome) (release : OcallResult)

namespace UserSession

variable {Key Hash : Type} [DecidableEq Hash] (keys : Pubkeys Key Hash)

/-- One call in a session that may have ended. -/
def step : Option (UserSession Hash) → UserEvent → Option (UserSession Hash)
  | none, _ => none
  | some s, .manage call o => (s.manage keys o call).map Prod.fst
  | some s, .look owner o release => some (s.look owner o release).1

/-- The call depends on the stored table alone.  A call that succeeds has made its own change
to the stored table, and one that fails has made none; if every step goes through, it
succeeds exactly if the stored table admits it.  What is looked into is the stored table. -/
def AsStored : Option (UserSession Hash) → UserEvent → Prop
  | none, _ => True
  | some s, .manage call o => ∀ s' ok, s.manage keys o call = some (s', ok) →
    (ok = true → s.stored.attempt keys call = some s'.stored) ∧
    (ok = false → s'.stored = s.stored) ∧
    (o.Smooth → ok = (s.stored.attempt keys call).isSome)
  | some s, .look owner o release =>
    (s.look owner o release).1.stored = s.stored ∧
      ∀ t, (s.look owner o release).2 = some t → t = s.stored

/-- What must go through after the table has been acquired: the creation of the profile of a
user that can be added, the search for a name, and the deletion of the profile of a user
that is removed. -/
def Finishes (t : UserTable Hash) (o : ManageOutcome) : TableCall → Prop
  | .add name pubkey uuid => (t.add keys name pubkey uuid).isSome →
    o.profileLock = .ok → o.profilePut.succeeds = true
  | .removeUsername name => (t.removeUsername name).isSome ∧
    (o.put.succeeds = true → o.deleted = true)
  | .removePubkey pubkey => (t.removePubkey keys pubkey).isSome →
    o.put.succeeds = true → o.deleted = true

/-- The call does not fail at a step that leaves a trace.  A call of the owner does not
lock the table and then reject its contents, and it finishes with the table that it has. -/
def Untraced : Option (UserSession Hash) → UserEvent → Prop
  | some s, .manage call o => o.owner = true →
    s.locks.acquireEnding o.acquire ≠ .orphaned ∧
      (s.locks.acquireEnding o.acquire = .held → Finishes keys s.stored o call)
  | _, _ => True

/-- Nobody holds the table, and the copy is the stored table or will be read anew. -/
structure InSync (s : UserSession Hash) : Prop where
  free : s.locks.Free
  copy : (∀ m ∈ s.locks.metadata, m.isInvalid = true) ∨ s.table = s.stored

end UserSession

/-! ## What the steps do -/

namespace UserSession

variable {Key Hash : Type} {keys : Pubkeys Key Hash} {s : UserSession Hash}

theorem locks_acquireUserTable (flags : IoFlags) (o : RevalidateOutcome) :
    (s.acquireUserTable flags o).map locks id = s.locks.acquire flags o := by
  rw [acquire_eq, acquireUserTable]
  cases s.locks.reads o with
  | true =>
    simp only [if_true, load]
    cases hload : s.locks.load flags o.read with
    | mk locks ok => cases ok <;> rfl
  | false =>
    simp only [Bool.false_eq_true, if_false]
    split <;> rfl

theorem stored_load (flags : IoFlags) (o : ReadOutcome) :
    (s.load flags o).1.stored = s.stored := by
  unfold load
  cases s.locks.load flags o with
  | mk locks ok => cases ok <;> rfl

theorem stored_acquireUserTable (flags : IoFlags) (o : RevalidateOutcome) :
    (s.acquireUserTable flags o).1.stored = s.stored := by
  unfold acquireUserTable
  split
  · exact stored_load flags o.read
  · split <;> rfl

theorem InSync.table_acquire (h : s.InSync) (flags : IoFlags) (o : RevalidateOutcome)
    (hok : (s.acquireUserTable flags o).2 = true) :
    (s.acquireUserTable flags o).1.table = s.stored := by
  unfold acquireUserTable at hok ⊢
  cases hreads : s.locks.reads o with
  | true =>
    simp only [hreads, if_true, load] at hok ⊢
    cases hload : s.locks.load flags o.read with
    | mk locks ok =>
      rw [hload] at hok
      cases ok with
      | false => cases hok
      | true =>
        show s.fetched = s.stored
        rw [fetched, h.free.clean]
        rfl
  | false =>
    -- a copy that is not read anew is there and is not invalid
    have hcopy : s.table = s.stored := by
      refine h.copy.resolve_left fun hinvalid => ?_
      unfold reads at hreads
      cases hm : s.locks.metadata with
      | none => simp [hm] at hreads
      | some m => simp [hm, hinvalid m hm] at hreads
    simp only [Bool.false_eq_true, if_false]
    split <;> exact hcopy

theorem acquire_failed (flags : IoFlags) (o : RevalidateOutcome)
    (hfail : (s.acquireUserTable flags o).2 = false) :
    (s.acquireUserTable flags o).1.locks.metadata = s.locks.metadata ∧
      (s.acquireUserTable flags o).1.table = s.table := by
  revert hfail
  unfold acquireUserTable
  split
  · unfold load ObjectLocks.load
    cases bufferLayerGet flags o.read.get s.locks.buffer with
    | mk buffer external =>
      cases external with
      | none => exact fun _ => ⟨rfl, rfl⟩
      | some bytes => cases o.read.parsed <;> simp
  split
  · unfold lock
    cases bufferLayerLock flags o.lock s.locks.buffer with
    | mk buffer ok => cases ok <;> simp
  · nofun

theorem metadata_unlock_invalid {c : ObjectLocks} (h : ∀ m ∈ c.metadata, m.isInvalid = true)
    (r : OcallResult) : ∀ m ∈ (c.unlock r).metadata, m.isInvalid = true := by
  unfold unlock
  cases hm : c.metadata with
  | none => simp [hm]
  | some m =>
    have hinvalid := h m hm
    dsimp only
    split
    · rintro _ ⟨⟩
      exact hinvalid
    · exact h

theorem metadata_store_invalid {c : ObjectLocks} {o : PutOutcome} (h : (c.store o).2 = false) :
    ∀ m ∈ (c.store o).1.metadata, m.isInvalid = true := by
  revert h
  unfold store
  split
  next hm => simp [hm]
  split
  · nofun
  split
  · rintro - _ ⟨⟩
    rfl
  split
  · rintro - _ ⟨⟩
    rfl
  · nofun

theorem abacCreateUserProfile_eq (lock : OcallResult) (put : PutOutcome) :
    abacCreateUserProfile lock put = if lock = .ok then some put.succeeds else none := by
  unfold abacCreateUserProfile
  by_cases hlock : lock = .ok
  · obtain ⟨c, hcreate, -, hput⟩ :=
      create_of_evicted ⟨none, ⟨none, ⟨[], 0, false⟩⟩⟩ hlock
    simp only [hcreate, (hput put).1, if_pos hlock]
  · simp only [create_of_evicted_failed _ hlock, if_neg hlock]

/-! ## The end of a call -/

theorem InSync.release {s : UserSession Hash} (hready : s.locks.Ready)
    (hcopy : (∀ m ∈ s.locks.metadata, m.isInvalid = true) ∨ s.table = s.stored)
    (r : OcallResult) : (s.releaseUserTable r).InSync where
  free := hready.unlock r
  copy := hcopy.imp (fun hinvalid => metadata_unlock_invalid hinvalid r) id

/-- A flush of a changed table that is held stores it, or leaves a copy that will be read
anew. -/
theorem flush_change (hheld : s.locks.Held) (table : UserTable Hash) (o : PutOutcome)
    (r : OcallResult) :
    ((s.change table).flushUserTable o).2 = o.succeeds ∧
      (((s.change table).flushUserTable o).1.releaseUserTable r).InSync ∧
      ((s.change table).flushUserTable o).1.stored =
        if o.succeeds then table else s.stored := by
  obtain ⟨hdirty, hmust⟩ := hheld.setDirty
  obtain ⟨hresult, hlocks⟩ := hdirty.store hmust o
  have hready : (s.locks.setDirty.store o).1.Ready := ObjectLocks.Ready.store (.inr hdirty) o
  have hinvalid := @metadata_store_invalid s.locks.setDirty o
  unfold flushUserTable change
  dsimp only
  cases hstore : s.locks.setDirty.store o with
  | mk locks ok =>
    rw [hstore] at hresult hready hinvalid
    cases ok with
    | false =>
      rw [← hresult]
      exact ⟨rfl, InSync.release hready (.inl (hinvalid rfl)) r, rfl⟩
    | true =>
      rw [← hresult]
      simp only [hmust, Bool.not_true, Bool.false_eq_true, if_false, hdirty.writers,
        lt_irrefl, if_true, true_and, and_true]
      exact InSync.release hready (.inr rfl) r

/-! ## One call -/

variable [DecidableEq Hash]

/-- What a call that leaves no trace does. -/
structure Transparent (keys : Pubkeys Key Hash) (s : UserSession Hash) (call : TableCall)
    (o : ManageOutcome) (s' : UserSession Hash) (ok : Bool) : Prop where
  inSync : s'.InSync
  success : ok = true → s.stored.attempt keys call = some s'.stored
  failure : ok = false → s'.stored = s.stored
  smooth : o.Smooth → ok = (s.stored.attempt keys call).isSome

variable {o : ManageOutcome}

theorem ManageOutcome.Smooth.acquires (h : o.Smooth) (c : ObjectLocks) :
    c.acquireEnding o.acquire = .held := by
  unfold acquireEnding ReadOutcome.ending
  simp [h.get, h.parsed, h.lock]

variable {call : TableCall}

/-- The start of a call: it ends there without a change, or goes on with the stored table in
its hands. -/
theorem Transparent.of_body (h : s.InSync)
    (hending : o.owner = true → s.locks.acquireEnding o.acquire ≠ .orphaned)
    {body : UserSession Hash → Option (UserSession Hash × Bool)} {s' : UserSession Hash}
    {ok : Bool} (hrun : s.withUserTable o body = some (s', ok))
    (hbody : ∀ s₁ : UserSession Hash, o.owner = true →
      s.locks.acquireEnding o.acquire = .held → s₁.locks.Held → s₁.table = s.stored →
      s₁.stored = s.stored → body s₁ = some (s', ok) → Transparent keys s call o s' ok) :
    Transparent keys s call o s' ok := by
  unfold withUserTable at hrun
  cases howner : o.owner with
  | false =>
    simp only [howner, Bool.not_false, if_true] at hrun
    cases hrun
    refine ⟨h, nofun, fun _ => rfl, fun hsmooth => ?_⟩
    exact absurd (hsmooth.owner.symm.trans howner) (by simp)
  | true =>
    simp only [howner, Bool.not_true, Bool.false_eq_true, if_false] at hrun
    have hlocks := locks_acquireUserTable (s := s) nexusFrdwr o.acquire
    have hends := h.free.acquire_ends o.acquire
    rw [← hlocks] at hends
    have hstored := stored_acquireUserTable (s := s) nexusFrdwr o.acquire
    have htable := h.table_acquire nexusFrdwr o.acquire
    have hfailed := acquire_failed (s := s) nexusFrdwr o.acquire
    obtain ⟨⟨s₁, got⟩, hacquire⟩ : ∃ r, s.acquireUserTable nexusFrdwr o.acquire = r := ⟨_, rfl⟩
    rw [hacquire] at hends hstored htable hfailed hrun
    cases hend : s.locks.acquireEnding o.acquire with
    | orphaned => exact absurd hend (hending howner)
    | replaced => exact absurd hend (acquireEnding_ne_replaced o.acquire s.locks)
    | refused =>
      rw [hend] at hends
      obtain ⟨hgot, hfree⟩ := hends
      obtain rfl : got = false := hgot
      obtain ⟨rfl, rfl⟩ : s₁ = s' ∧ false = ok := by simpa using hrun
      obtain ⟨hmetadata, hsame⟩ := hfailed rfl
      refine ⟨⟨hfree, ?_⟩, nofun, fun _ => hstored, fun hsmooth => ?_⟩
      · rw [hmetadata, hsame, hstored]
        exact h.copy
      · simp [ManageOutcome.Smooth.acquires hsmooth] at hend
    | held =>
      rw [hend] at hends
      obtain ⟨hgot, hheld⟩ := hends
      obtain rfl : got = true := hgot
      exact hbody s₁ howner hend hheld (htable rfl) hstored hrun

theorem Transparent.of_finishRemove {s₁ : UserSession Hash} (hheld : s₁.locks.Held)
    (hstored : s₁.stored = s.stored) {table : UserTable Hash}
    (hattempt : s.stored.attempt keys call = some table)
    (hdeleted : o.put.succeeds = true → o.deleted = true) :
    Transparent keys s call o (s₁.finishRemove table o).1 (s₁.finishRemove table o).2 := by
  obtain ⟨hresult, hsync, hwritten⟩ := flush_change hheld table o.put o.release
  unfold finishRemove
  obtain ⟨⟨s₂, flushed⟩, hflush⟩ : ∃ r, (s₁.change table).flushUserTable o.put = r := ⟨_, rfl⟩
  rw [hflush] at hresult hsync hwritten ⊢
  obtain rfl : flushed = o.put.succeeds := hresult
  cases hput : o.put.succeeds with
  | false =>
    rw [hput] at hwritten
    refine ⟨hsync, nofun, fun _ => hwritten.trans hstored, fun hsmooth => ?_⟩
    exact absurd (hsmooth.put.symm.trans hput) (by simp)
  | true =>
    rw [hput] at hwritten
    have hall : o.deleted = true := hdeleted hput
    refine ⟨hsync, fun _ => ?_, fun hfail => ?_, fun _ => ?_⟩
    · exact hattempt.trans (congrArg some hwritten.symm)
    · exact absurd (hall.symm.trans hfail) (by simp)
    · rw [hattempt]
      exact hall

theorem Transparent.of_refused {s₁ : UserSession Hash} (hheld : s₁.locks.Held)
    (htable : s₁.table = s.stored) (hstored : s₁.stored = s.stored)
    (hattempt : s.stored.attempt keys call = none) :
    Transparent keys s call o (s₁.releaseUserTable o.release) false where
  inSync := InSync.release (.inr hheld) (.inr (htable.trans hstored.symm)) o.release
  success := nofun
  failure := fun _ => hstored
  smooth := fun _ => by rw [hattempt]; rfl

theorem InSync.manage (h : s.InSync) (hcall : Untraced keys (some s) (.manage call o))
    {s' : UserSession Hash} {ok : Bool} (hrun : s.manage keys o call = some (s', ok)) :
    Transparent keys s call o s' ok := by
  cases call with
  | add name pubkey uuid =>
    refine Transparent.of_body h (fun howner => (hcall howner).1) hrun ?_
    intro s₁ howner hend hheld htable hstored hbody
    have hprofile := (hcall howner).2 hend
    rw [htable] at hbody
    cases hadd : s.stored.add keys name pubkey uuid with
    | none =>
      simp only [hadd] at hbody
      cases hbody
      exact Transparent.of_refused hheld htable hstored (by simp [attempt, hadd])
    | some added =>
      obtain ⟨table, user⟩ := added
      have hattempt : s.stored.attempt keys (.add name pubkey uuid) = some table := by
        simp [attempt, hadd]
      simp only [hadd, abacCreateUserProfile_eq] at hbody
      by_cases hlock : o.profileLock = .ok
      · have hput : o.profilePut.succeeds = true := hprofile (by simp [hadd]) hlock
        obtain ⟨hresult, hsync, hwritten⟩ := flush_change hheld table o.put o.release
        simp only [hlock, if_true, hput] at hbody
        cases hbody
        rw [hresult]
        refine ⟨hsync, fun hok => ?_, fun hfail => ?_, fun hsmooth => ?_⟩
        · rw [hok] at hwritten
          exact hattempt.trans (congrArg some hwritten.symm)
        · rw [hfail] at hwritten
          exact hwritten.trans hstored
        · rw [hattempt]
          exact hsmooth.put
      · simp [hlock] at hbody
  | removeUsername name =>
    refine Transparent.of_body h (fun howner => (hcall howner).1) hrun ?_
    intro s₁ howner hend hheld htable hstored hbody
    obtain ⟨hknown, hdeleted⟩ := (hcall howner).2 hend
    obtain ⟨⟨table, uuid⟩, hremove⟩ := Option.isSome_iff_exists.mp hknown
    rw [htable] at hbody
    simp only [hremove, Option.some.injEq] at hbody
    obtain ⟨rfl, rfl⟩ := Prod.mk.inj hbody
    exact Transparent.of_finishRemove hheld hstored (by simp [attempt, hremove]) hdeleted
  | removePubkey pubkey =>
    refine Transparent.of_body h (fun howner => (hcall howner).1) hrun ?_
    intro s₁ howner hend hheld htable hstored hbody
    have hdeleted := (hcall howner).2 hend
    rw [htable] at hbody
    cases hremove : s.stored.removePubkey keys pubkey with
    | none =>
      simp only [hremove] at hbody
      cases hbody
      exact Transparent.of_refused hheld htable hstored (by simp [attempt, hremove])
    | some removed =>
      obtain ⟨table, uuid⟩ := removed
      simp only [hremove, Option.some.injEq] at hbody
      obtain ⟨rfl, rfl⟩ := Prod.mk.inj hbody
      exact Transparent.of_finishRemove hheld hstored (by simp [attempt, hremove])
        (hdeleted (by simp [hremove]))

theorem InSync.look (h : s.InSync) (owner : Bool) (o : RevalidateOutcome) (release : OcallResult) :
    (s.look owner o release).1.InSync ∧ (s.look owner o release).1.stored = s.stored ∧
      ∀ t, (s.look owner o release).2 = some t → t = s.stored := by
  unfold UserSession.look
  cases owner with
  | false => exact ⟨h, rfl, nofun⟩
  | true =>
    have hlocks := locks_acquireUserTable (s := s) nexusFread o
    have hfree := h.free.acquire_read o
    rw [← hlocks] at hfree
    have hstored := stored_acquireUserTable (s := s) nexusFread o
    have htable := h.table_acquire nexusFread o
    have hfailed := acquire_failed (s := s) nexusFread o
    obtain ⟨⟨s₁, got⟩, hacquire⟩ : ∃ r, s.acquireUserTable nexusFread o = r := ⟨_, rfl⟩
    rw [hacquire] at hfree hstored htable hfailed
    simp only [Bool.not_true, Bool.false_eq_true, if_false, hacquire]
    cases got with
    | false =>
      obtain ⟨hmetadata, hsame⟩ := hfailed rfl
      refine ⟨⟨hfree, ?_⟩, hstored, nofun⟩
      rw [hmetadata, hsame, hstored]
      exact h.copy
    | true =>
      refine ⟨InSync.release (.inl hfree) (.inr ((htable rfl).trans hstored.symm)) release,
        hstored, ?_⟩
      rintro t ⟨⟩
      exact htable rfl

/-! ## Runs -/

/-- The session has ended, or the copy of the table is in order. -/
def Coherent (s : Option (UserSession Hash)) : Prop := ∀ s' ∈ s, s'.InSync

theorem Coherent.step {s : Option (UserSession Hash)} (h : Coherent s) {e : UserEvent}
    (he : Untraced keys s e) : Coherent (step keys s e) ∧ AsStored keys s e := by
  cases s with
  | none => exact ⟨h, trivial⟩
  | some s =>
    have hs : s.InSync := h s rfl
    cases e with
    | manage call o =>
      constructor
      · intro s' hs'
        obtain ⟨⟨_, ok⟩, hrun, rfl⟩ := Option.map_eq_some_iff.mp hs'
        exact (hs.manage he hrun).inSync
      · intro s' ok hrun
        have hdone := hs.manage he hrun
        exact ⟨hdone.success, hdone.failure, hdone.smooth⟩
    | look owner o release =>
      obtain ⟨hsync, hlook⟩ := hs.look owner o release
      refine ⟨?_, hlook⟩
      rintro _ ⟨⟩
      exact hsync

/-- Along a run whose calls fail at none of the steps that leave a trace, every call depends
on the stored table alone, to which the calls that failed have done nothing. -/
theorem failed_calls_leave_no_trace (hs : s.InSync) (events : List UserEvent)
    (hevents : Meets (step keys) (Untraced keys) (some s) events) :
    Meets (step keys) (AsStored keys) (some s) events := by
  have hstart : Coherent (some s) := by
    rintro _ ⟨⟩
    exact hs
  refine meets_of_meets (P := Coherent) ?_ ?_ hstart hevents
  · intro s e h he
    exact (h.step he).1
  · intro s e h he
    exact (h.step he).2

/-! ## Traces -/

/-- A session that has not used the user table yet. -/
def unopened (stored : UserTable Bytes) : UserSession Bytes :=
  ⟨⟨none, ⟨none, ⟨[], 1, false⟩⟩⟩, stored, stored, stored⟩

/-- Every step goes through; the datastore has nothing newer. -/
def smoothOutcome : ManageOutcome where
  owner := true
  acquire := ⟨some 0, false, ⟨.ok, true⟩, .ok⟩
  profileLock := .ok
  profilePut := ⟨true, true, .ok, [], 1⟩
  put := ⟨true, true, .ok, [], 1⟩
  deleted := true
  release := .ok

def profileFails : ManageOutcome :=
  { smoothOutcome with profilePut := ⟨true, true, .failed, [], 1⟩ }

/-- A user is added, an addition fails at the store of the table, a removal fails for a key
that is not known, and another user is added. -/
theorem refused_store_leaves_no_trace :
    let keys := toyCrypto.toPubkeys
    let events : List UserEvent :=
      [.manage (.add [97] [5] 1) smoothOutcome,
        .manage (.add [98] [6] 2) { smoothOutcome with put := ⟨true, true, .failed, [], 1⟩ },
        .manage (.removePubkey [7]) smoothOutcome, .manage (.add [99] [6] 3) smoothOutcome]
    let start := some (unopened (newTable toyCrypto [1]))
    Meets (step keys) (AsStored keys) start events ∧
      (events.foldl (step keys) start).map (·.stored.userlist.map User.name) =
        some [[97], [99]] := by
  have hsync : (unopened (newTable toyCrypto [1])).InSync :=
    ⟨⟨rfl, rfl, by simp [unopened]⟩, .inr rfl⟩
  refine ⟨failed_calls_leave_no_trace hsync _ ?_, by decide⟩
  refine ⟨?_, ?_, ?_, ?_, trivial⟩ <;>
    exact fun _ => ⟨by decide, fun _ => by unfold Finishes; decide⟩

/-- The profile of a user cannot be stored, and the call fails.  A second attempt is refused,
and the next call that succeeds enrols that user with its own.  After the removal of a name
that is not known, a call that succeeds does not change the stored table. -/
theorem failed_user_is_enrolled :
    let keys := toyCrypto.toPubkeys
    let start := unopened (newTable toyCrypto [1])
    let failed := start.manage keys profileFails (.add [97] [5] 1)
    let unknown := start.manage keys smoothOutcome (.removeUsername [97])
    failed.map Prod.snd = some false ∧
      (failed.bind fun r => r.1.manage keys smoothOutcome (.add [97] [5] 2)).map Prod.snd =
        some false ∧
      (failed.bind fun r => r.1.manage keys smoothOutcome (.add [98] [6] 2)).map
        (fun r => (r.2, r.1.stored.userlist.map User.name)) = some (true, [[97], [98]]) ∧
      unknown.map Prod.snd = some false ∧
      (unknown.bind fun r => r.1.manage keys smoothOutcome (.add [98] [6] 2)).map
        (fun r => (r.2, r.1.stored.userlist.map User.name)) = some (true, []) ∧
      ¬ Meets (step keys) (AsStored keys) (some start)
        [.manage (.add [97] [5] 1) profileFails, .manage (.add [98] [6] 2) smoothOutcome] := by
  refine ⟨by decide, by decide, by decide, by decide, by decide, ?_⟩
  intro hmeets
  have hstored := (hmeets.2.1 _ _ rfl).1 rfl
  cases hstored

end UserSession

end Nexus.Users
