import Nexus.Ecalls.TwoDirectories

/-!
# Which ecalls give back their locks

Every ecall from a state without writers either has given back all locks when it
returns, or has left a writer behind; `Ecall.Releases` says which.  Runs whose
calls meet it never meet a lock of an earlier call.
-/

namespace Nexus.Locking

open Programs

variable {s : Locks}

/-- What an ecall needs to give back every lock that it takes. -/
def Ecall.Releases (owner : Bool) (s : Locks) : Ecall → Prop
  | .fsCreate o => o.Released owner s
  | .fsRemove o => o.Released owner s
  | .fsLookup o | .fsReaddir o => o.Released owner s
  | .fsSymlink o => o.dir.Opens s fun _ => o.Kept
  | .fsHardlink o => o.Released s
  | .fsRename o => o.Released s
  | .userAdd o => o.Released owner (s .userTable)
  | .userRemoveUsername o => o.Known owner (s .userTable)
  | .userRemovePubkey o => owner = true → Acquires (s .userTable) o.acquire
  | .abacAttributeAddBulk o => o.Flushed (s .attributeSpace)
  | .abacAttributeAdd o | .abacAttributeDel o => o.Flushed (s .attributeSpace)
  | .abacAttributeLs o => Acquires (s .attributeSpace) o.acquire
  | .abacUserAttributeGrant o | .abacUserAttributeRevoke o => o.Released s
  | .abacObjectAttributeGrant o | .abacObjectAttributeRevoke o =>
    o.object.Opens s fun _ => o.Kept (s .attributeSpace) True
  | .abacObjectAttributeLs o => o.Listed s
  | .abacPolicyAddBulk o => o.Flushed (s .policyStore)
  | .abacPolicyAdd o | .abacPolicyDel o | .abacPolicyDelFirst o =>
    Acquires (s .policyStore) o.acquire
  | .abacPrintAuditLog o => o.object.Opens s fun _ => True
  -- these only read
  | .fsStat _ | .fsReadlink _ | .userFindUsername _ | .userFindPubkey _ | .userLs _
  | .abacUserAttributeLs _ | .abacPolicyLs _ | .abacDatabase _ => True

theorem ensures_settles_true {m : LockM Bool} (h : Ensures m s fun _ s' => ReadyIn [] s') :
    Ensures m s fun _ s' => Settles True s' :=
  h.mono fun _ _ h' => settles_of_free h' trivial

theorem Ecall.run_ensures (h : ReadyIn [] s) (owner : Bool) (e : Ecall) :
    Ensures (e.run owner) s fun _ s' => Settles (e.Releases owner s) s' := by
  cases e with
  | fsCreate o => exact ecallFsCreate_ensures h owner o
  | fsRemove o => exact ecallFsRemove_ensures h owner o
  | fsLookup o => exact checkedRead_ensures h owner o
  | fsStat o => exact ensures_settles_true (ecallFsStat_ensures h o)
  | fsReaddir o => exact checkedRead_ensures h owner o
  | fsSymlink o => exact ecallFsSymlink_ensures h o
  | fsReadlink o => exact ensures_settles_true (ecallFsReadlink_ensures h o)
  | fsHardlink o => exact ecallFsHardlink_ensures h o
  | fsRename o => exact ecallFsRename_ensures h o
  | userAdd o => exact ecallUserAdd_ensures h owner o
  | userRemoveUsername o => exact ecallUserRemoveUsername_ensures h owner o
  | userRemovePubkey o => exact ecallUserRemovePubkey_ensures h owner o
  | userFindUsername o => exact ensures_settles_true (userRead_ensures h owner o)
  | userFindPubkey o => exact ensures_settles_true (userRead_ensures h owner o)
  | userLs o => exact ensures_settles_true (userRead_ensures h owner o)
  | abacAttributeAddBulk o => exact bulkAdd_ensures h _ o
  | abacAttributeAdd o | abacAttributeDel o => exact updateUnreleased_ensures h _ o
  | abacAttributeLs o => exact readReleased_ensures h _ o
  | abacUserAttributeGrant o | abacUserAttributeRevoke o => exact withUserProfile_ensures h o
  | abacUserAttributeLs o => exact ensures_settles_true (withUserProfile_read h o)
  | abacObjectAttributeGrant o => exact ecallAbacObjectAttribute_ensures h o
  | abacObjectAttributeRevoke o => exact ecallAbacObjectAttribute_ensures h o
  | abacObjectAttributeLs o => exact ecallAbacObjectAttributeLs_ensures h o
  | abacPolicyAddBulk o => exact bulkAdd_ensures h _ o
  | abacPolicyAdd o | abacPolicyDel o | abacPolicyDelFirst o => exact updateReleased_ensures h _ o
  | abacPolicyLs o => exact ensures_settles_true (ecallAbacPolicyLs_ensures h o)
  | abacDatabase ok => exact ensures_pure (settles_of_free h trivial)
  | abacPrintAuditLog o => exact ecallAbacPrintAuditLog_ensures h o

/-! ## Runs -/

/-- What happens in an enclave: a step of a path walk, or an ecall of a user. -/
inductive LockEvent where
  | visit (v : Visit)
  | ecall (owner : Bool) (e : Ecall)
  deriving DecidableEq, Repr

def LockEvent.run (s : Locks) : LockEvent → Option Locks
  | .visit v => (v.run none s).map Prod.snd
  | .ecall owner e => (e.run owner s).map Prod.snd

/-- The enclave; it is gone once an ecall does not return. -/
def lockStep (s : Option Locks) (e : LockEvent) : Option Locks := s.bind (e.run ·)

/-- If the call returns, each object has as many writers as before. -/
def LockEvent.Balanced (s : Option Locks) (e : LockEvent) : Prop :=
  ∀ before ∈ s, ∀ after ∈ e.run before, ∀ x,
    (after x).buffer.writers = (before x).buffer.writers

/-- What an event needs to give back every lock. -/
def LockEvent.Needs (s : Locks) : LockEvent → Prop
  | .visit _ => True
  | .ecall owner e => e.Releases owner s

/-- If the call returns, it meets its condition. -/
def LockEvent.Releases (s : Option Locks) (e : LockEvent) : Prop :=
  ∀ before ∈ s, (e.run before).isSome = true → e.Needs before

/-- Nothing is locked. -/
def Unlocked (s : Option Locks) : Prop := ∀ locks ∈ s, ∀ x, (locks x).Free

theorem LockEvent.run_settles (h : ∀ x, (s x).Free) {e : LockEvent} {after : Locks}
    (hrun : e.run s = some after) : Settles (e.Needs s) after := by
  have hready := readyIn_nil_iff.mpr h
  cases e with
  | visit v =>
    obtain ⟨r, hr, rfl⟩ := Option.map_eq_some_iff.mp hrun
    exact settles_of_free (v.ensures hready r.1 r.2 hr) trivial
  | ecall owner e =>
    obtain ⟨r, hr, rfl⟩ := Option.map_eq_some_iff.mp hrun
    exact e.run_ensures hready owner r.1 r.2 hr

theorem lockStep_unlocked (s : Option Locks) (e : LockEvent) (h : Unlocked s)
    (hc : e.Releases s) : Unlocked (lockStep s e) := by
  intro after hafter
  obtain ⟨before, hbefore, hrun⟩ := Option.bind_eq_some_iff.mp hafter
  have hsettles := LockEvent.run_settles (h before hbefore) hrun
  exact readyIn_nil_iff.mp (hsettles.1 (hc before hbefore (by simp [hrun])))

theorem balanced_iff_releases (s : Option Locks) (e : LockEvent) (h : Unlocked s) :
    e.Balanced s ↔ e.Releases s := by
  constructor
  · intro hbalanced before hbefore hreturns
    obtain ⟨after, hrun⟩ := Option.isSome_iff_exists.mp hreturns
    by_contra hnot
    obtain ⟨x, hx⟩ := (LockEvent.run_settles (h before hbefore) hrun).2 hnot
    apply hx
    rw [hbalanced before hbefore after hrun x]
    exact (h before hbefore x).writers
  · intro hreleases before hbefore after hrun x
    have hafter := (LockEvent.run_settles (h before hbefore) hrun).1
      (hreleases before hbefore (by rw [Option.mem_def.mp hrun]; rfl))
    rw [(readyIn_nil_iff.mp hafter x).writers, (h before hbefore x).writers]

/-- From a state in which nothing is locked, the calls of a run leave all counts of
writers as they were exactly if each of them meets the condition of its ecall. -/
theorem ecalls_release_locks (s : Locks) (hs : ∀ x, (s x).Free) (es : List LockEvent) :
    Runs.Meets lockStep (fun s e => e.Balanced s) (some s) es ↔
      Runs.Meets lockStep (fun s e => e.Releases s) (some s) es := by
  refine Runs.meets_iff_meets lockStep_unlocked balanced_iff_releases ?_ es
  rintro _ ⟨⟩
  exact hs

/-- A client that has not opened anything. -/
def unopened : Locks := fun _ => ⟨none, ⟨none, ⟨[], 0, false⟩⟩⟩

theorem unopened_free (x : Lockable) : (unopened x).Free := ⟨rfl, rfl, nofun⟩

/-- Every ocall of the acquisition succeeds. -/
def opens : RevalidateOutcome := ⟨some 0, false, ⟨.ok, true⟩, .ok⟩

-- a rename in a directory of two buckets: the put of the second one fails, and only the
-- directory is given back
example :
    ((Ecall.fsRename ⟨.one ⟨some 7, ⟨false, ⟨opens, opens.read⟩, true⟩, .ok⟩, true,
        ⟨[⟨9, true, true, ⟨true, true, .failed, [], 1⟩⟩], ⟨true, true, .ok, [], 1⟩⟩,
        ⟨[], ⟨true, true, .ok, [], 1⟩⟩⟩).run true unopened).map (fun r =>
      (r.1, (r.2 (.object 7)).buffer.writers, (r.2 (.bucket 9)).buffer.writers)) =
      some (false, 0, 1) := by
  decide

/-- `ecall_user_remove_username` with every ocall succeeding. -/
def removeUsername (removed : Bool) : UserRemove where
  acquire := opens
  removed := removed
  put := ⟨true, true, .ok, [], 1⟩
  user := default
  deleted := true
  release := .ok

/-- The owner removes a user, who can then not remove another one. -/
def removeTwice : List LockEvent :=
  [.ecall true (.userRemoveUsername (removeUsername true)),
    .ecall false (.userRemoveUsername (removeUsername true))]

theorem removeTwice_release_locks :
    (∀ x, (unopened x).Free) ∧
      Runs.Meets lockStep (fun s e => e.Releases s) (some unopened) removeTwice ∧
      Runs.Meets lockStep (fun s e => e.Balanced s) (some unopened) removeTwice := by
  have hmeets : Runs.Meets lockStep (fun s e => e.Releases s) (some unopened) removeTwice := by
    refine ⟨?_, ?_, trivial⟩
    · rintro _ ⟨⟩ - -
      exact ⟨by unfold Acquires; decide, fun _ => rfl⟩
    · rintro _ - - howner
      cases howner
  exact ⟨unopened_free, hmeets, (ecalls_release_locks unopened unopened_free removeTwice).mpr hmeets⟩

/-- A name that is not in the user table: the ecall returns an error, and the table
stays locked. -/
theorem removeUsername_keeps_lock :
    (∃ after, (Ecall.userRemoveUsername (removeUsername false)).run true unopened =
        some (false, after) ∧
      (unopened .userTable).buffer.writers = 0 ∧ (after .userTable).buffer.writers = 1) ∧
      ¬ (LockEvent.ecall true (.userRemoveUsername (removeUsername false))).Balanced
        (some unopened) := by
  refine ⟨⟨_, rfl, by decide, by decide⟩, fun h => ?_⟩
  have hwriters := h unopened rfl _ rfl .userTable
  cases hwriters

end Nexus.Locking
