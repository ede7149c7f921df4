import Nexus.Ecalls.Held

/-!
# The ecalls on tables and user profiles

For each ecall, the condition under which it gives back what it acquires, and
that it is exact.
-/

namespace Nexus.Locking

open Function Programs List ObjectLocks

variable {s : Locks} {x : Lockable}

/-! ## Updates -/

/-- The table is not rejected after it was locked, and if it is changed, the flush
succeeds. -/
def TableUpdate.Flushed (c : ObjectLocks) (o : TableUpdate) : Prop :=
  c.acquireEnding o.acquire ≠ .orphaned ∧
    (c.acquireEnding o.acquire = .held → o.changed = true → o.put.succeeds = true)

/-- The table is not rejected after it was locked. -/
def Acquires (c : ObjectLocks) (o : RevalidateOutcome) : Prop := c.acquireEnding o ≠ .orphaned

variable {condition : Prop}

/-- An ecall that begins with an acquisition and returns if that fails: what counts then is
the rest of it, if the object is held. -/
theorem ensures_acquire_settles (h : ReadyIn [] s) {x : Lockable} {o : RevalidateOutcome}
    {f : Bool → LockM Bool} {p : Prop} (hfalse : f false = pure false)
    (hcond : condition ↔ Acquires (s x) o ∧ ((s x).acquireEnding o = .held → p))
    (hheld : ∀ c : ObjectLocks, c.Held → c.mustStore = (!(s x).reads o && (s x).mustStore) →
      Ensures (f true) (update s x c) fun _ s' => Settles p s') :
    Ensures (acquire x nexusFrdwr o >>= f) s fun _ s' => Settles condition s' := by
  unfold Acquires at hcond
  refine ensures_bind (ensures_acquire (h.free x not_mem_nil) o ?_ ?_ ?_)
  · intro he c hc
    rw [hfalse]
    exact ensures_pure (settles_of_free (h.update_free x hc) (by simp [hcond, he]))
  · intro he c hc
    rw [hfalse]
    exact ensures_pure (settles_of_leak (leaks_update hc.writers) (by simp [hcond, he]))
  · intro he c hc hmust
    exact (hheld c hc hmust).mono fun _ s' hs' => by simpa [hcond, he] using hs'

theorem ensures_release_settles {f : Unit → LockM Bool} {ok : Bool} (hf : f () = pure ok)
    (h : ReadyIn [x] s) (r : OcallResult) (hc : condition) :
    Ensures (release x r >>= f) s fun _ s' => Settles condition s' := by
  refine ensures_bind (ensures_release (h.ready x) r ?_)
  intro c hfree
  rw [hf]
  refine ensures_pure (settles_of_free ((h.update_free x hfree).drop ?_) hc)
  rwa [update_self]

variable {c : ObjectLocks}

theorem readyIn_update_held (h : ReadyIn [] s) (hc : c.Held) :
    ReadyIn [x] (update s x c) :=
  (h.cons x).update_ready mem_cons_self (.inr hc)

variable {Q : Bool → Locks → Prop}

/-- The flush of the object that is held. -/
theorem ensures_markDirty {f : Unit → LockM Bool} (hc : c.Held)
    (hQ : ∀ c' : ObjectLocks, c'.Held → c'.mustStore = true →
      Ensures (f ()) (update s x c') Q) :
    Ensures (markDirty x >>= f) (update s x c) Q := by
  refine ensures_bind (ensures_modifyObject ?_)
  rw [update_self, update_idem]
  exact hQ _ hc.setDirty.1 hc.setDirty.2

theorem ensures_flush_update (hc : c.Held) (hmust : c.mustStore = true) (o : PutOutcome)
    (hok : o.succeeds = true → ∀ c' : ObjectLocks, c'.Free → Q true (update s x c'))
    (hfail : o.succeeds = false → ∀ c' : ObjectLocks, c'.Held → Q false (update s x c')) :
    Ensures (flush x o) (update s x c) Q := by
  refine ensures_flush (by rwa [update_self]) (by rwa [update_self]) o ?_ ?_
  · intro hput c' hc'
    rw [update_idem]
    exact hok hput c' hc'
  · intro hput c' hc'
    rw [update_idem]
    exact hfail hput c' hc'

section

variable (h : ReadyIn [] s) (x : Lockable)
include h

theorem updateUnreleased_ensures (o : TableUpdate) :
    Ensures (updateUnreleased x o) s fun _ s' => Settles (o.Flushed (s x)) s' := by
  unfold updateUnreleased
  refine ensures_acquire_settles h rfl Iff.rfl fun c hc _ => ?_
  cases o.changed with
  | false => exact ensures_release_settles rfl (readyIn_update_held h hc) o.release (by simp)
  | true =>
    refine ensures_markDirty hc fun c' hc' hmust => ensures_flush_update hc' hmust o.put ?_ ?_
    · intro hput c'' hfree
      exact settles_of_free (h.update_free x hfree) fun _ => hput
    · intro hput c'' hheld
      exact settles_of_leak (leaks_held hheld) (by simp [hput])

theorem updateReleased_ensures (o : TableUpdate) :
    Ensures (updateReleased x o) s fun _ s' => Settles (Acquires (s x) o.acquire) s' := by
  unfold updateReleased
  refine ensures_acquire_settles (p := True) h rfl (by simp) fun c hc _ => ?_
  cases o.changed with
  | false => exact ensures_release_settles rfl (readyIn_update_held h hc) o.release trivial
  | true =>
    refine ensures_markDirty hc fun c' hc' hmust =>
      ensures_bind (ensures_flush_update hc' hmust o.put ?_ ?_)
    · intro _ c'' hfree
      exact ensures_pure (settles_of_free (h.update_free x hfree) trivial)
    · intro _ c'' hheld
      exact ensures_release_settles rfl (readyIn_update_held h hheld) o.release trivial

theorem readReleased_ensures (o : TableRead) :
    Ensures (readReleased x nexusFrdwr o) s fun _ s' => Settles (Acquires (s x) o.acquire) s' := by
  unfold readReleased
  exact ensures_acquire_settles (p := True) h rfl (by simp) fun c hc _ =>
    ensures_release_settles rfl (readyIn_update_held h hc) o.release trivial

/-! ### Bulk adds -/

/-- The table is not rejected after it was locked, and if no line is refused, there
is something to write and the flush succeeds. -/
def BulkAdd.Flushed (c : ObjectLocks) (o : BulkAdd) : Prop :=
  Acquires c o.acquire ∧
    (c.acquireEnding o.acquire = .held → (addLines o.maxNumber 0 o.lines).1 = true →
      ((addLines o.maxNumber 0 o.lines).2 ≠ 0 ∨ c.reads o.acquire = false ∧ c.mustStore = true) ∧
        o.put.succeeds = true)

theorem bulkAdd_ensures (o : BulkAdd) :
    Ensures (bulkAdd x o) s fun _ s' => Settles (o.Flushed (s x)) s' := by
  unfold bulkAdd
  refine ensures_acquire_settles h rfl Iff.rfl fun c hc hmust => ?_
  obtain ⟨ok, added⟩ := addLines o.maxNumber 0 o.lines
  -- the rest of the ecall, with or without something to write
  have hrest : ∀ c' : ObjectLocks, c'.Held →
      (c'.mustStore = true ↔ added ≠ 0 ∨ (s x).reads o.acquire = false ∧ (s x).mustStore = true) →
      Ensures (if (!ok) = true then do
          modifyObject x (·.reset o.release o.reload)
          pure false
        else flush x o.put) (update s x c') fun _ s' =>
          Settles (ok = true → (added ≠ 0 ∨ (s x).reads o.acquire = false ∧
            (s x).mustStore = true) ∧ o.put.succeeds = true) s' := by
    intro c' hc' hmust'
    cases ok with
    | false =>
      refine ensures_bind (ensures_modifyObject (ensures_pure ?_))
      rw [update_self, update_idem]
      exact settles_of_free (h.update_free x (hc'.reset _ _)) (by simp)
    | true =>
      cases hdirty : c'.mustStore with
      | true =>
        refine ensures_flush_update hc' hdirty o.put ?_ ?_
        · intro hput c'' hfree
          exact settles_of_free (h.update_free x hfree) fun _ => ⟨hmust'.mp hdirty, hput⟩
        · intro hput c'' hheld
          exact settles_of_leak (leaks_held hheld) (by simp [hput])
      | false =>
        obtain ⟨m, hm, -⟩ := hc'.locked
        refine ensures_onObject ?_
        rw [update_self, store_of_not_mustStore hm hdirty, update_idem]
        refine settles_of_leak (leaks_held hc') fun hflushed => ?_
        exact Bool.false_ne_true (hdirty.symm.trans (hmust'.mpr (hflushed rfl).1))
  rw [if_neg (by simp)]
  dsimp only
  by_cases hadded : added = 0
  · rw [if_neg (not_not.mpr hadded)]
    exact hrest c hc (by simp [hmust, hadded])
  · rw [if_pos hadded]
    exact ensures_markDirty hc fun c' hc' hdirty => hrest c' hc' (by simp [hdirty, hadded])

end

/-! ## Reads -/

variable {held : List Lockable}

theorem ensures_quiet {α : Type} {f : ObjectLocks → ObjectLocks × α} (h : ReadyIn held s)
    (hx : x ∉ held) (hf : ∀ c : ObjectLocks, c.Free → (f c).1.Free) :
    Ensures (onObject x f) s fun _ s' => ReadyIn held s' :=
  ensures_onObject (h.update_free x (hf _ (h.free x hx)))

theorem ensures_acquire_read (h : ReadyIn held s) (hx : x ∉ held) (o : RevalidateOutcome) :
    Ensures (acquire x nexusFread o) s fun _ s' => ReadyIn held s' :=
  ensures_quiet h hx fun _ hc => hc.acquire_read o

/-- An acquisition for reading, with its result. -/
theorem ensures_acquire_fread (h : (s x).Free) (o : RevalidateOutcome)
    (hQ : ∀ c : ObjectLocks, c.Free → Q ((s x).readSucceeds o) (update s x c)) :
    Ensures (acquire x nexusFread o) s Q := by
  refine ensures_onObject ?_
  rw [h.acquire_read_succeeds o]
  exact hQ _ (h.acquire_read o)

theorem ensures_release_ready (h : ReadyIn held s) (x : Lockable) (r : OcallResult) :
    Ensures (release x r) s fun _ s' => ReadyIn held s' :=
  ensures_release (h.ready x) r fun _ hc => h.update_free x hc

theorem readReleased_read (h : ReadyIn held s) (hx : x ∉ held) (o : TableRead) :
    Ensures (readReleased x nexusFread o) s fun _ s' => ReadyIn held s' := by
  unfold readReleased
  refine (ensures_acquire_read h hx o.acquire).guard rfl fun s₁ h₁ => ?_
  exact (ensures_release_ready h₁ x o.release).bind fun _ _ h₂ => ensures_pure h₂

theorem ecallAbacPolicyLs_ensures (h : ReadyIn [] s) (o : TableRead) :
    Ensures (ecallAbacPolicyLs o) s fun _ s' => ReadyIn [] s' := by
  unfold ecallAbacPolicyLs
  refine (ensures_acquire_read h not_mem_nil o.acquire).guard rfl fun s₁ h₁ => ?_
  cases o.found with
  | true => exact ensures_pure h₁
  | false => exact (ensures_release_ready h₁ _ o.release).bind fun _ _ h₂ => ensures_pure h₂

theorem userRead_ensures (h : ReadyIn [] s) (owner : Bool) (o : TableRead) :
    Ensures (userRead owner o) s fun _ s' => ReadyIn [] s' := by
  unfold userRead
  cases owner with
  | false => exact ensures_pure h
  | true => exact readReleased_read h not_mem_nil o

/-! ## Users -/

theorem ensures_createObject (x : Lockable) (lock : OcallResult) (put : PutOutcome)
    (hok : lock = .ok → put.succeeds = true →
      ∀ c : ObjectLocks, c.Free → c.metadata = none → Q true (update s x c))
    (hfail : lock = .ok → put.succeeds = false →
      ∀ c : ObjectLocks, c.Lost → Q false (update s x c)) :
    Ensures (createObject x lock put) s Q := by
  unfold createObject
  refine ensures_bind (ensures_onObject ?_)
  by_cases hlock : lock = .ok
  · obtain ⟨c, hcreate, hlost, hput⟩ := create_of_evicted (s x) hlock
    rw [hcreate]
    refine ensures_bind (ensures_onObject ?_)
    refine ensures_bind (ensures_modifyObject (ensures_pure ?_))
    simp only [update_self, update_idem]
    obtain ⟨hresult, hafter⟩ := hput put
    rw [hresult]
    cases hsucc : put.succeeds with
    | true => exact hok hlock hsucc _ (by simpa [hsucc] using hafter) rfl
    | false => exact hfail hlock hsucc _ (by simpa [hsucc] using hafter)
  · rw [create_of_evicted_failed (s x) hlock]
    exact ensures_failure

/-- The owner adds a user: the user table is not rejected after it was locked, and the
profile of a new user is stored. -/
def UserAdd.Released (owner : Bool) (c : ObjectLocks) (o : UserAdd) : Prop :=
  owner = true → Acquires c o.acquire ∧
    (c.acquireEnding o.acquire = .held → o.added = true → o.profileLock = .ok →
      o.profilePut.succeeds = true)

theorem ensures_releaseUserTable (h : ReadyIn [.userTable] s) (r : OcallResult) (ok : Bool)
    (hc : condition) :
    Ensures (releaseUserTable r ok) s fun _ s' => Settles condition s' :=
  ensures_release_settles rfl h r hc

section

variable (h : ReadyIn [] s)
include h

theorem ecallUserAdd_ensures (owner : Bool) (o : UserAdd) :
    Ensures (ecallUserAdd owner o) s fun _ s' => Settles (o.Released owner (s .userTable)) s' := by
  unfold ecallUserAdd UserAdd.Released
  cases owner with
  | false => exact ensures_pure (settles_of_free h (by simp))
  | true =>
    refine ensures_acquire_settles h rfl (forall_prop_of_true rfl) fun c hc _ => ?_
    cases o.added with
    | false =>
      exact ensures_releaseUserTable (readyIn_update_held h hc) o.release false (by simp)
    | true =>
      refine ensures_markDirty hc fun c₁ hc₁ hmust =>
        ensures_bind (ensures_createObject _ o.profileLock o.profilePut ?_ ?_)
      · intro hlock hput p hp _
        rw [update_comm (by simp)]
        have h₁ : ReadyIn [] (update s (.userProfile o.user) p) := h.update_free _ hp
        refine ensures_bind (ensures_flush_update hc₁ hmust o.put ?_ ?_)
        · intro _ c₂ hc₂
          exact ensures_releaseUserTable ((h₁.update_free _ hc₂).cons _) o.release true
            fun _ _ => hput
        · intro _ c₂ hc₂
          exact ensures_releaseUserTable (readyIn_update_held h₁ hc₂) o.release false
            fun _ _ => hput
      · intro hlock hput p hp
        refine ensures_bind (ensures_release ?_ o.release fun c₂ _ => ensures_pure ?_)
        · rw [update_of_ne (by simp), update_self]
          exact .inr hc₁
        · refine settles_of_leak ⟨.userProfile o.user, ?_⟩ (by simp [hlock, hput])
          rw [update_of_ne (by simp), update_self]
          exact hp.writers

theorem finishUserRemove_ensures (hc : c.Held) (o : UserRemove) (hcond : condition) :
    Ensures (finishUserRemove o) (update s .userTable c) fun _ s' => Settles condition s' := by
  unfold finishUserRemove
  refine ensures_markDirty hc fun c₁ hc₁ hmust =>
    ensures_bind (ensures_flush_update hc₁ hmust o.put ?_ ?_)
  · intro _ c₂ hc₂
    have h₁ := h.update_free .userTable hc₂
    have hprofile := h₁.free (.userProfile o.user) not_mem_nil
    refine ensures_bind (ensures_modifyObject ?_)
    exact ensures_releaseUserTable
      ((h₁.update_free _ (evictBuffer_free hprofile.opened)).cons _) o.release _ hcond
  · intro _ c₂ hc₂
    exact ensures_releaseUserTable (readyIn_update_held h hc₂) o.release false hcond

/-- The owner removes a user by name: the user table is not rejected after it was
locked, and the name is in it. -/
def UserRemove.Known (owner : Bool) (c : ObjectLocks) (o : UserRemove) : Prop :=
  owner = true → Acquires c o.acquire ∧
    (c.acquireEnding o.acquire = .held → o.removed = true)

theorem ecallUserRemoveUsername_ensures (owner : Bool) (o : UserRemove) :
    Ensures (ecallUserRemoveUsername owner o) s fun _ s' =>
      Settles (o.Known owner (s .userTable)) s' := by
  unfold ecallUserRemoveUsername UserRemove.Known
  cases owner with
  | false => exact ensures_pure (settles_of_free h (by simp))
  | true =>
    refine ensures_acquire_settles h rfl (forall_prop_of_true rfl) fun c hc _ => ?_
    cases o.removed with
    | false => exact ensures_pure (settles_of_leak (leaks_held hc) (by simp))
    | true => exact finishUserRemove_ensures h hc o rfl

theorem ecallUserRemovePubkey_ensures (owner : Bool) (o : UserRemove) :
    Ensures (ecallUserRemovePubkey owner o) s fun _ s' =>
      Settles (owner = true → Acquires (s .userTable) o.acquire) s' := by
  unfold ecallUserRemovePubkey
  cases owner with
  | false => exact ensures_pure (settles_of_free h (by simp))
  | true =>
    refine ensures_acquire_settles (p := True) h rfl (by simp) fun c hc _ => ?_
    cases o.removed with
    | false => exact ensures_releaseUserTable (readyIn_update_held h hc) o.release false trivial
    | true => exact finishUserRemove_ensures h hc o trivial

/-! ## User profiles -/

/-- Once the user is found and the profile is opened, it is not rejected, and a
change is stored. -/
def ProfileCall.Released (s : Locks) (o : ProfileCall) : Prop :=
  (s .userTable).readSucceeds o.table = true → o.user.isSome = true →
    o.load.ending ≠ .orphaned ∧
      (o.load.ending = .held → (s .attributeSpace).readSucceeds o.space = true →
        o.changed = true → o.put.succeeds = true)

theorem readyIn_restore {user : Uuid} (hc : c.Free) :
    ReadyIn [] (update s (.userProfile user)
      { c with metadata := (s (.userProfile user)).metadata }) :=
  h.update_free _ ⟨hc.writers, hc.clean, (h.free _ not_mem_nil).opened⟩

theorem abacPutUserProfile_free {user : Uuid} (hc : c.Free) (o : ProfileCall) :
    Ensures (abacPutUserProfile user (s (.userProfile user)).metadata o)
      (update s (.userProfile user) c) fun _ s' => ReadyIn [] s' := by
  have hstore := hc.store o.put
  unfold abacPutUserProfile
  refine ensures_bind (ensures_onObject ?_)
  rw [update_self, update_idem]
  cases (c.store o.put).2 with
  | false =>
    refine ensures_bind (ensures_modifyObject (ensures_pure ?_))
    rw [update_self, update_idem]
    exact readyIn_restore h hstore
  | true =>
    refine ensures_bind (ensures_modifyObject
      (ensures_bind (ensures_modifyObject (ensures_pure ?_))))
    simp only [update_self, update_idem]
    exact readyIn_restore h (hstore.unlock o.release)

theorem abacPutUserProfile_held {user : Uuid} (hc : c.Held) (o : ProfileCall) :
    Ensures (abacPutUserProfile user (s (.userProfile user)).metadata o)
      (update s (.userProfile user) c) fun _ s' =>
        Settles (c.mustStore = true → o.put.succeeds = true) s' := by
  unfold abacPutUserProfile
  cases hmust : c.mustStore with
  | false =>
    obtain ⟨m, hm, -⟩ := hc.locked
    refine ensures_bind (ensures_onObject ?_)
    rw [update_self, store_of_not_mustStore hm hmust, update_idem]
    refine ensures_bind (ensures_modifyObject
      (ensures_bind (ensures_modifyObject (ensures_pure ?_))))
    simp only [update_self, update_idem]
    exact settles_of_free (readyIn_restore h (hc.unlock o.release)) (by simp)
  | true =>
    refine ensures_bind (ensures_flush_update hc hmust o.put ?_ ?_)
    · intro hput c₁ hc₁
      refine ensures_bind (ensures_modifyObject
        (ensures_bind (ensures_modifyObject (ensures_pure ?_))))
      simp only [update_self, update_idem]
      exact settles_of_free (readyIn_restore h (hc₁.unlock o.release)) (by simp [hput])
    · intro hput c₁ hc₁
      refine ensures_bind (ensures_modifyObject (ensures_pure ?_))
      rw [update_self, update_idem]
      exact settles_of_leak (leaks_update (by simp [hc₁.writers])) (by simp [hput])

/-- The user table and the attribute space are free when the helper is done. -/
theorem ensures_finishProfile (user : Uuid) {modifies : Bool} {o : ProfileCall}
    (hQ : ∀ w : Locks, ReadyIn [] w → w (.userProfile user) = s (.userProfile user) →
      Ensures (changeProfile modifies user (w (.userProfile user)).metadata
        ((s .attributeSpace).readSucceeds o.space && o.changed) o)
        (update w (.userProfile user) c) Q) :
    Ensures (finishProfile modifies user (s (.userProfile user)).metadata o)
      (update s (.userProfile user) c) Q := by
  have htable : Lockable.userProfile user ≠ .userTable := by simp
  have hspace : Lockable.userProfile user ≠ .attributeSpace := by simp
  unfold finishProfile
  refine ensures_bind (ensures_release ?_ o.tableRelease fun t ht => ?_)
  · rw [update_of_ne htable.symm]
    exact h.ready _
  refine ensures_bind (ensures_acquire_fread ?_ o.space fun a ha => ?_)
  · rw [update_of_ne (by simp), update_of_ne hspace.symm]
    exact h.free _ not_mem_nil
  have hprofile : update (update s .userTable t) .attributeSpace a
      (.userProfile user) = s (.userProfile user) := by
    rw [update_of_ne hspace, update_of_ne htable]
  have hchange := hQ _ ((h.update_free _ ht).update_free _ ha) hprofile
  rw [hprofile] at hchange
  rw [update_of_ne (by simp), update_of_ne hspace.symm,
    update_comm htable, update_comm hspace]
  exact hchange

theorem finishProfile_held (user : Uuid) (hc : c.Held) (hmust : c.mustStore = false)
    (o : ProfileCall) :
    Ensures (finishProfile true user (s (.userProfile user)).metadata o)
      (update s (.userProfile user) c) fun _ s' =>
        Settles ((s .attributeSpace).readSucceeds o.space = true → o.changed = true →
          o.put.succeeds = true) s' := by
  refine ensures_finishProfile h user fun w hw _ => ?_
  unfold changeProfile
  cases hok : (s .attributeSpace).readSucceeds o.space && o.changed with
  | false =>
    refine (abacPutUserProfile_held hw hc o).bind fun _ s' hs' => ensures_pure ?_
    refine settles_of_free (hs'.1 (by simp [hmust])) ?_
    intro hread hchanged
    simp [hread, hchanged] at hok
  | true =>
    simp only [Bool.and_eq_true] at hok
    refine ensures_markDirty hc fun c₁ hc₁ hmust₁ => ?_
    refine (abacPutUserProfile_held hw hc₁ o).bind fun _ s' hs' => ensures_pure ?_
    simpa [hmust₁, hok.1, hok.2] using hs'

theorem finishProfile_free (user : Uuid) (hc : c.Free) (o : ProfileCall) :
    Ensures (finishProfile false user (s (.userProfile user)).metadata o)
      (update s (.userProfile user) c) fun _ s' => ReadyIn [] s' := by
  refine ensures_finishProfile h user fun w hw _ => ?_
  unfold changeProfile
  rw [Bool.and_false]
  exact (abacPutUserProfile_free hw hc o).bind fun _ s' hs' => ensures_pure hs'

theorem withUserProfile_ensures (o : ProfileCall) :
    Ensures (withUserProfile nexusFrdwr true o) s fun _ s' => Settles (o.Released s) s' := by
  unfold withUserProfile
  refine ensures_bind (ensures_acquire_fread (h.free _ not_mem_nil) o.table fun t ht => ?_)
  have h₁ := h.update_free .userTable ht
  cases hread : (s .userTable).readSucceeds o.table with
  | false => exact ensures_pure (settles_of_free h₁ (by simp [ProfileCall.Released, hread]))
  | true =>
    cases huser : o.user with
    | none =>
      exact ensures_releaseUserTable (h₁.cons _) o.tableRelease false
        (by simp [ProfileCall.Released, huser])
    | some user =>
      have hprofile := h₁.free (.userProfile user) not_mem_nil
      have hspace : update s .userTable t .attributeSpace = s .attributeSpace :=
        update_of_ne (by simp) _ _
      refine ensures_bind (ensures_get (ensures_bind (ensures_ending (hprofile.load_ends o.load)
        ?_ ?_ ?_ ?_)))
      · intro he hfree
        exact ensures_releaseUserTable ((h₁.update_free _ hfree).cons _) o.tableRelease false
          (by simp [ProfileCall.Released, he])
      · intro he hlost
        refine ensures_bind (ensures_release ?_ o.tableRelease fun c _ => ensures_pure ?_)
        · rw [update_of_ne (by simp)]
          exact h₁.ready _
        · refine settles_of_leak ⟨.userProfile user, ?_⟩
            (by simp [ProfileCall.Released, hread, huser, he])
          rw [update_of_ne (by simp), update_self]
          exact hlost.writers
      · intro he hheld
        have hfinish := finishProfile_held h₁ user hheld
          (load_mustStore hprofile.clean he) o
        rw [hspace] at hfinish
        exact hfinish.mono fun _ s' hs' => by
          simpa [ProfileCall.Released, hread, huser, he] using hs'
      · intro he
        exact absurd he (ReadOutcome.ending_ne_replaced o.load)

theorem releaseUserTable_read (r : OcallResult) (ok : Bool) :
    Ensures (releaseUserTable r ok) s fun _ s' => ReadyIn [] s' :=
  (ensures_release_ready h .userTable r).bind fun _ _ h₁ => ensures_pure h₁

theorem withUserProfile_read (o : ProfileCall) :
    Ensures (withUserProfile nexusFread false o) s fun _ s' => ReadyIn [] s' := by
  unfold withUserProfile
  refine (ensures_acquire_read h not_mem_nil o.table).guard rfl fun s₁ h₁ => ?_
  cases o.user with
  | none => exact releaseUserTable_read h₁ o.tableRelease false
  | some user =>
    have hload := (h₁.free (.userProfile user) not_mem_nil).load_read lockMode_fread o.load
    refine ensures_bind (ensures_get (ensures_bind (ensures_onObject ?_)))
    cases ((s₁ (.userProfile user)).load nexusFread o.load).2 with
    | false => exact releaseUserTable_read (h₁.update_free _ hload) o.tableRelease false
    | true => exact finishProfile_free h₁ user hload o

end

end Nexus.Locking
