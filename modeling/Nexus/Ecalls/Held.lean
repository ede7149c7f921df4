import Nexus.Ecalls.Locks
import Nexus.Lib.Programs
import Nexus.Storage.Acquire

/-!
# Rules for programs that hold locks

`ReadyIn held` says which objects an ecall may hold; all others are free.  The
rules here say what the parts that the ecalls share do to it.
-/

namespace Nexus.Locking

open Function Programs

/-- Only these objects may be held. -/
structure ReadyIn (held : List Lockable) (s : Locks) : Prop where
  ready : ∀ x, (s x).Ready
  free : ∀ x, x ∉ held → (s x).Free

/-- An object that nothing holds has a writer. -/
def Leaks (s : Locks) : Prop := ∃ x, (s x).buffer.writers ≠ 0

variable {s : Locks} {held : List Lockable} {x : Lockable} {c : ObjectLocks}

theorem readyIn_nil_iff : ReadyIn [] s ↔ ∀ x, (s x).Free :=
  ⟨fun h x => h.free x List.not_mem_nil, fun h => ⟨fun x => .inl (h x), fun x _ => h x⟩⟩

theorem ReadyIn.update_ready (h : ReadyIn held s) (hx : x ∈ held) (hc : c.Ready) :
    ReadyIn held (update s x c) := by
  constructor
  · intro y
    rw [update_apply]
    split
    · exact hc
    · exact h.ready y
  · intro y hy
    have hne : y ≠ x := fun hyx => hy (hyx ▸ hx)
    rw [update_of_ne hne]
    exact h.free y hy

theorem ReadyIn.update_free (h : ReadyIn held s) (x : Lockable) (hc : c.Free) :
    ReadyIn held (update s x c) := by
  constructor
  · intro y
    rw [update_apply]
    split
    · exact .inl hc
    · exact h.ready y
  · intro y hy
    rw [update_apply]
    split
    · exact hc
    · exact h.free y hy

/-- A change that keeps free objects free and ready ones ready. -/
theorem ReadyIn.modify (h : ReadyIn held s) (x : Lockable) {f : ObjectLocks → ObjectLocks}
    (hfree : (s x).Free → (f (s x)).Free) (hready : (s x).Ready → (f (s x)).Ready) :
    ReadyIn held (update s x (f (s x))) := by
  by_cases hx : x ∈ held
  · exact h.update_ready hx (hready (h.ready x))
  · exact h.update_free x (hfree (h.free x hx))

theorem ReadyIn.cons (h : ReadyIn held s) (x : Lockable) : ReadyIn (x :: held) s :=
  ⟨h.ready, fun y hy => h.free y (List.not_mem_of_not_mem_cons hy)⟩

theorem ReadyIn.drop (h : ReadyIn (x :: held) s) (hx : (s x).Free) : ReadyIn held s := by
  refine ⟨h.ready, fun y hy => ?_⟩
  by_cases hyx : y = x
  · rw [hyx]
    exact hx
  · exact h.free y (List.not_mem_cons_of_ne_of_not_mem hyx hy)

theorem leaks_update (hc : c.buffer.writers ≠ 0) : Leaks (update s x c) :=
  ⟨x, by rwa [update_self]⟩

theorem leaks_held (hc : c.Held) : Leaks (update s x c) := leaks_update (by simp [hc.writers])

/-! ## Operations on one object -/

variable {α β : Type}

theorem ensures_onObject {f : ObjectLocks → ObjectLocks × α} {Q : α → Locks → Prop}
    (h : Q (f (s x)).2 (update s x (f (s x)).1)) : Ensures (onObject x f) s Q := by
  intro a s' hrun
  cases hrun
  exact h

theorem ensures_modifyObject {f : ObjectLocks → ObjectLocks} {Q : Unit → Locks → Prop}
    (h : Q () (update s x (f (s x)))) : Ensures (modifyObject x f) s Q :=
  ensures_onObject h

variable {Q : Bool → Locks → Prop}

/-- What an operation does that ends in one of the four ways. -/
theorem ensures_ending {f : ObjectLocks → ObjectLocks × Bool} {e : Ending} (hends : e.Ends (f (s x)))
    (hrefused : e = .refused → (f (s x)).1.Free → Q false (update s x (f (s x)).1))
    (horphaned : e = .orphaned → (f (s x)).1.Lost → Q false (update s x (f (s x)).1))
    (hheld : e = .held → (f (s x)).1.Held → Q true (update s x (f (s x)).1))
    (hreplaced : e = .replaced → (f (s x)).1.Replaced → Q true (update s x (f (s x)).1)) :
    Ensures (onObject x f) s Q := by
  refine ensures_onObject ?_
  rw [hends.succeeds]
  cases e with
  | refused => exact hrefused rfl hends.2
  | orphaned => exact horphaned rfl hends.2
  | held => exact hheld rfl hends.2
  | replaced => exact hreplaced rfl hends.2

theorem ensures_acquire (h : (s x).Free) (o : RevalidateOutcome)
    (hrefused : (s x).acquireEnding o = .refused →
      ∀ c : ObjectLocks, c.Free → Q false (update s x c))
    (horphaned : (s x).acquireEnding o = .orphaned →
      ∀ c : ObjectLocks, c.Lost → Q false (update s x c))
    (hheld : (s x).acquireEnding o = .held → ∀ c : ObjectLocks, c.Held →
      c.mustStore = (!(s x).reads o && (s x).mustStore) → Q true (update s x c)) :
    Ensures (acquire x nexusFrdwr o) s Q := by
  refine ensures_ending (h.acquire_ends o) (hrefused · _) (horphaned · _) ?_ ?_
  · intro he hheldAfter
    exact hheld he _ hheldAfter (h.acquire_mustStore he)
  · intro he
    exact absurd he (ObjectLocks.acquireEnding_ne_replaced o (s x))

theorem ensures_flush (h : (s x).Held) (hmust : (s x).mustStore = true) (o : PutOutcome)
    (hok : o.succeeds = true → ∀ c : ObjectLocks, c.Free → Q true (update s x c))
    (hfail : o.succeeds = false → ∀ c : ObjectLocks, c.Held → Q false (update s x c)) :
    Ensures (flush x o) s Q := by
  obtain ⟨hresult, hafter⟩ := h.store hmust o
  refine ensures_onObject ?_
  rw [hresult]
  cases hput : o.succeeds <;> rw [hput] at hafter
  · exact hfail hput _ hafter
  · exact hok hput _ hafter

theorem ensures_release {Q : Unit → Locks → Prop} (h : (s x).Ready) (r : OcallResult)
    (hQ : ∀ c : ObjectLocks, c.Free → Q () (update s x c)) :
    Ensures (release x r) s Q :=
  ensures_modifyObject (hQ _ (h.unlock r))

theorem release_drop (h : ReadyIn (x :: held) s) (r : OcallResult) :
    Ensures (release x r) s fun _ s' => ReadyIn held s' :=
  ensures_release (h.ready x) r fun _ hc =>
    (h.update_free x hc).drop (by rwa [update_self])

theorem flush_ensures (h : ReadyIn held s) (x : Lockable) (o : PutOutcome) :
    Ensures (flush x o) s fun _ s' => ReadyIn held s' :=
  ensures_onObject (h.modify x (f := fun c => (c.store o).1) (·.store o) (·.store o))

/-! ## What a program does not touch -/

/-- The program leaves the object as it is. -/
def Leaves (x : Lockable) (m : LockM α) : Prop := ∀ s, Ensures m s fun _ s' => s' x = s x

theorem leaves_pure (x : Lockable) (a : α) : Leaves x (pure a : LockM α) :=
  fun _ => ensures_pure rfl

theorem Leaves.bind {m : LockM α} {f : α → LockM β} (hm : Leaves x m) (hf : ∀ a, Leaves x (f a)) :
    Leaves x (m >>= f) :=
  fun s => (hm s).bind fun a s' h => (hf a s').mono fun _ _ h' => h'.trans h

theorem leaves_onObject {y : Lockable} (hxy : x ≠ y) (f : ObjectLocks → ObjectLocks × α) :
    Leaves x (onObject y f) :=
  fun _ => ensures_onObject (update_of_ne hxy _ _)

theorem leaves_modifyObject {y : Lockable} (hxy : x ≠ y) (f : ObjectLocks → ObjectLocks) :
    Leaves x (modifyObject y f) :=
  leaves_onObject hxy _

theorem leaves_get (x : Lockable) : Leaves x (get : LockM Locks) := fun _ => ensures_get rfl

theorem leaves_failure (x : Lockable) : Leaves x (failure : LockM α) := fun _ => ensures_failure

theorem leaves_ite {p : Prop} [Decidable p] {m n : LockM α} (hm : Leaves x m) (hn : Leaves x n) :
    Leaves x (if p then m else n) := by
  split
  · exact hm
  · exact hn

theorem Leaves.writers {m : LockM α} (hm : Leaves x m) (h : (s x).buffer.writers ≠ 0) :
    Ensures m s fun _ s' => (s' x).buffer.writers ≠ 0 :=
  (hm s).mono fun _ _ h' => by rwa [h']

/-! ## The end of an ecall -/

/-- Everything is given back if the condition holds, and something is not if it does
not. -/
def Settles (condition : Prop) (s : Locks) : Prop :=
  (condition → ReadyIn [] s) ∧ (¬ condition → Leaks s)

theorem settles_of_free {condition : Prop} (h : ReadyIn [] s) (hc : condition) :
    Settles condition s :=
  ⟨fun _ => h, fun hnot => absurd hc hnot⟩

theorem settles_of_leak {condition : Prop} (h : Leaks s) (hc : ¬ condition) :
    Settles condition s :=
  ⟨fun hyes => absurd hyes hc, fun _ => h⟩

/-! ## Locks beside the objects of an ecall -/

/-- What an ecall locks beside the objects that its paths lead to. -/
def Lockable.isAside : Lockable → Bool
  | .hardlinkTable | .auditLog _ | .bucket _ => true
  | .object _ | .userTable | .attributeSpace | .policyStore | .userProfile _ => false

/-- The lock of one of them is lost. -/
def LeaksAside (s : Locks) : Prop := ∃ x : Lockable, x.isAside = true ∧ (s x).buffer.writers ≠ 0

/-- Only these objects are held if the condition holds, and a lock beside them is lost
if it does not. -/
def SettlesIn (held : List Lockable) (condition : Prop) (s : Locks) : Prop :=
  (condition → ReadyIn held s) ∧ (¬ condition → LeaksAside s)

variable {condition : Prop}

theorem leaksAside_update (hx : x.isAside = true) (hc : c.buffer.writers ≠ 0) :
    LeaksAside (update s x c) :=
  ⟨x, hx, by rwa [update_self]⟩

theorem settlesIn_of_ready (h : ReadyIn held s) (hc : condition) : SettlesIn held condition s :=
  ⟨fun _ => h, fun hnot => absurd hc hnot⟩

theorem settlesIn_of_leak (h : LeaksAside s) (hc : ¬ condition) : SettlesIn held condition s :=
  ⟨fun hyes => absurd hyes hc, fun _ => h⟩

theorem SettlesIn.settles (h : SettlesIn [] condition s) : Settles condition s :=
  ⟨h.1, fun hnot => (h.2 hnot).imp fun _ hx => hx.2⟩

/-- The program touches nothing beside the objects. -/
def LeavesAside (m : LockM α) : Prop := ∀ x : Lockable, x.isAside = true → Leaves x m

theorem leavesAside_onObject (hx : x.isAside = false) (f : ObjectLocks → ObjectLocks × α) :
    LeavesAside (onObject x f) := by
  intro y hy
  refine leaves_onObject ?_ f
  rintro rfl
  exact Bool.false_ne_true (hx.symm.trans hy)

theorem leavesAside_release (hx : x.isAside = false) (r : OcallResult) :
    LeavesAside (release x r) :=
  leavesAside_onObject hx fun c => (c.unlock r, ())

theorem LeavesAside.leaks {m : LockM α} (hm : LeavesAside m) (h : LeaksAside s) :
    Ensures m s fun _ s' => LeaksAside s' := by
  obtain ⟨x, hx, hlost⟩ := h
  exact ((hm x hx).writers hlost).mono fun _ _ hlost' => ⟨x, hx, hlost'⟩

/-- What touches nothing beside the objects leaves there what is lost. -/
theorem SettlesIn.then {m : LockM α} {held' : List Lockable} (h : SettlesIn held condition s)
    (hready : ReadyIn held s → Ensures m s fun _ s' => ReadyIn held' s')
    (hleaves : LeavesAside m) : Ensures m s fun _ s' => SettlesIn held' condition s' := by
  by_cases hcond : condition
  · exact (hready (h.1 hcond)).mono fun _ _ h' => settlesIn_of_ready h' hcond
  · exact (hleaves.leaks (h.2 hcond)).mono fun _ _ h' => settlesIn_of_leak h' hcond

/-! ## Stores of objects -/

/-- Every bucket is stored. -/
def bucketsStored (buckets : List BucketPut) : Bool := buckets.all (·.stored)

/-- No bucket is locked and then not stored. -/
def bucketsKept : List BucketPut → Bool
  | [] => true
  | o :: buckets => o.kept && (!o.stored || bucketsKept buckets)

theorem bucketsStored_of_not_kept {buckets : List BucketPut} (h : bucketsKept buckets = false) :
    bucketsStored buckets = false := by
  induction buckets with
  | nil => cases h
  | cons o buckets ih =>
    cases hstored : o.stored with
    | false => simp [bucketsStored, hstored]
    | true =>
      have hkept : o.kept = true := by
        simp_all [BucketPut.stored, BucketPut.kept]
      simp only [bucketsKept, hstored, hkept, Bool.true_and, Bool.not_true, Bool.false_or] at h
      simpa [bucketsStored, hstored] using ih h

section Buckets

variable (h : ReadyIn held s) (hheld : ∀ uuid, Lockable.bucket uuid ∉ held)
include h hheld

theorem storeBuckets_ensures (buckets : List BucketPut) :
    Ensures (storeBuckets buckets) s fun ok s' =>
      ok = bucketsStored buckets ∧ SettlesIn held (bucketsKept buckets = true) s' := by
  induction buckets generalizing s with
  | nil => exact ensures_pure ⟨rfl, settlesIn_of_ready h rfl⟩
  | cons o buckets ih =>
    obtain ⟨hok, hafter⟩ := (h.free _ (hheld o.uuid)).storeBucket o
    refine ensures_bind (ensures_onObject ?_)
    rw [hok]
    cases hkept : o.kept with
    | false =>
      have hstored : o.stored = false := by simp_all [BucketPut.stored, BucketPut.kept]
      rw [hkept] at hafter
      rw [hstored]
      refine ensures_pure ⟨by simp [bucketsStored, hstored], ?_⟩
      exact settlesIn_of_leak (leaksAside_update rfl hafter) (by simp [bucketsKept, hkept])
    | true =>
      rw [hkept] at hafter
      have h₁ := h.update_free (.bucket o.uuid) hafter
      cases hstored : o.stored with
      | false =>
        refine ensures_pure ⟨by simp [bucketsStored, hstored], ?_⟩
        exact settlesIn_of_ready h₁ (by simp [bucketsKept, hkept, hstored])
      | true => simpa [bucketsStored, bucketsKept, hkept, hstored] using ih h₁

theorem storeOtherBuckets_ensures (reached : Bool) (buckets : List BucketPut) :
    Ensures (storeOtherBuckets reached buckets) s fun ok s' =>
      ok = (!reached || bucketsStored buckets) ∧
        SettlesIn held (reached = true → bucketsKept buckets = true) s' := by
  cases reached with
  | false => exact ensures_pure ⟨rfl, settlesIn_of_ready h nofun⟩
  | true => simpa [storeOtherBuckets] using storeBuckets_ensures h hheld buckets

end Buckets

theorem storeOtherBuckets_leaves (hx : ∀ uuid, x ≠ .bucket uuid) (reached : Bool)
    (buckets : List BucketPut) : Leaves x (storeOtherBuckets reached buckets) := by
  refine leaves_ite ?_ (leaves_pure x _)
  induction buckets with
  | nil => exact leaves_pure x _
  | cons o buckets ih =>
    exact (leaves_onObject (hx o.uuid) _).bind fun _ => leaves_ite (leaves_pure x _) ih

theorem storeObject_leaves {uuid : Uuid} (hx : ∀ bucket, x ≠ .bucket bucket) (hne : x ≠ .object uuid)
    (o : DirPut) : Leaves x (storeObject uuid o) :=
  (leaves_get x).bind fun _ => (storeOtherBuckets_leaves hx _ _).bind fun _ =>
    leaves_onObject hne _

theorem syncObject_leaves {uuid : Uuid} (hx : ∀ bucket, x ≠ .bucket bucket) (hne : x ≠ .object uuid)
    (buckets : List BucketPut) (o : SyncOutcome) : Leaves x (syncObject uuid buckets o) :=
  (leaves_get x).bind fun _ => (storeOtherBuckets_leaves hx _ _).bind fun _ =>
    leaves_onObject hne _

/-- The put of the main object, after the buckets. -/
def DirPut.put (c : ObjectLocks) (o : DirPut) : PutOutcome :=
  o.main.after (c.skipsStore || bucketsStored o.buckets)

section

variable (h : ReadyIn held s) (hheld : ∀ uuid, Lockable.bucket uuid ∉ held)
include h hheld

/-- A store of an object whose buckets are kept is a store of its main object. -/
theorem storeObject_ensures (uuid : Uuid) (o : DirPut) :
    Ensures (storeObject uuid o) s fun ok s' =>
      (s (.object uuid)).store (o.put (s (.object uuid))) = (s' (.object uuid), ok) ∧
        SettlesIn held ((s (.object uuid)).skipsStore = false → bucketsKept o.buckets = true) s' := by
  refine ensures_bind (ensures_get ?_)
  refine ((storeOtherBuckets_ensures h hheld _ _).and
    (storeOtherBuckets_leaves (x := .object uuid) (by simp) _ _ s)).bind ?_
  rintro stored s₁ ⟨⟨rfl, h₁⟩, hsame⟩
  rw [Bool.not_eq_true'] at h₁
  rw [Bool.not_not]
  refine Ensures.and (ensures_onObject ?_) (h₁.then (fun hready => flush_ensures hready _ _)
    (leavesAside_onObject rfl _))
  rw [update_self, hsame]
  rfl

theorem markDirty_storeObject (uuid : Uuid) (o : DirPut) :
    Ensures (do
      markDirty (.object uuid)
      storeObject uuid o) s fun _ s' => SettlesIn held (bucketsKept o.buckets = true) s' := by
  have hdirty := h.modify (.object uuid) (f := (·.setDirty)) (·.setDirty) (·.setDirty)
  refine ensures_bind (ensures_modifyObject ?_)
  refine (storeObject_ensures hdirty hheld uuid o).mono fun _ s' hs' => ?_
  simpa using hs'.2

end

end Nexus.Locking
