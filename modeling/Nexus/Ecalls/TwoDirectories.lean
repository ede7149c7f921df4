import Nexus.Ecalls.Directories
import Nexus.Storage.Contended

/-!
# The ecalls on two directories

`ecall_fs_hardlink` walks a path while it holds a directory, and `ecall_fs_rename`
holds two.  A directory that is visited again while it is held is where a lock can
be lost without a failure.
-/

namespace Nexus.Locking

open Function Programs List ObjectLocks Visit DentryOutcome

variable {s : Locks} {src dst : Uuid} {α β : Type}

/-! ## What a program keeps of one object -/

/-- The program keeps the property of the object. -/
def Preserves (x : Lockable) (P : ObjectLocks → Prop) (m : LockM α) : Prop :=
  ∀ s : Locks, P (s x) → Ensures m s fun _ s' => P (s' x)

section Preserves

variable {x : Lockable} {P : ObjectLocks → Prop}

theorem Leaves.preserves {m : LockM α} (h : Leaves x m) : Preserves x P m :=
  fun s hP => (h s).mono fun _ _ hs' => by rwa [hs']

theorem preserves_pure (a : α) : Preserves x P (pure a : LockM α) := (leaves_pure x a).preserves

theorem Preserves.bind {m : LockM α} {f : α → LockM β} (hm : Preserves x P m)
    (hf : ∀ a, Preserves x P (f a)) : Preserves x P (m >>= f) :=
  fun s hP => (hm s hP).bind fun a s' hP' => hf a s' hP'

theorem preserves_onObject {f : ObjectLocks → ObjectLocks × α} (y : Lockable)
    (h : y = x → ∀ c, P c → P (f c).1) : Preserves x P (onObject y f) := by
  by_cases hyx : y = x
  · cases hyx
    intro s hP
    refine ensures_onObject ?_
    rw [update_self]
    exact h rfl _ hP
  · exact (leaves_onObject (Ne.symm hyx) f).preserves

theorem preserves_modifyObject {f : ObjectLocks → ObjectLocks} (y : Lockable)
    (h : y = x → ∀ c, P c → P (f c)) : Preserves x P (modifyObject y f) :=
  preserves_onObject y h

theorem preserves_storeObject {uuid : Uuid}
    (h : ∀ (c : ObjectLocks) (put : PutOutcome), P c → P (c.store put).1) (o : DirPut) :
    Preserves (.object uuid) P (storeObject uuid o) :=
  (leaves_get _).preserves.bind fun _ =>
    (storeOtherBuckets_leaves (by simp) _ _).preserves.bind fun _ =>
      preserves_onObject _ fun _ c hc => h c _ hc

end Preserves

/-! ## The second walk of a hardlink -/

/-- The locks after a step of a walk. -/
def Visit.visited (held : Option Uuid) (s : Locks) : Visit → Locks
  | .revalidate uuid o => update s (.object uuid)
      ((s (.object uuid)).dentryRevalidate nexusFread (o.through (decide (held = some uuid)))).1
  | .evict uuid =>
    if held = some uuid then s else update s (.object uuid) (s (.object uuid)).evict

/-- The locks after a walk. -/
def walked (held : Option Uuid) (visits : List Visit) (s : Locks) : Locks :=
  visits.foldl (Visit.visited held) s

theorem Visit.ensures_visited (held : Option Uuid) (s : Locks) (v : Visit) :
    Ensures (v.run held) s fun _ s' => s' = v.visited held s := by
  cases v with
  | revalidate uuid o => exact ensures_modifyObject rfl
  | evict uuid =>
    simp only [run, visited]
    split
    · exact ensures_pure rfl
    · exact ensures_modifyObject rfl

theorem ensures_walked (held : Option Uuid) (visits : List Visit) (s : Locks) :
    Ensures (walk held visits) s fun _ s' => s' = walked held visits s := by
  induction visits generalizing s with
  | nil => exact ensures_pure rfl
  | cons v visits ih =>
    refine (v.ensures_visited held s).bind fun _ s₁ h₁ => ?_
    rw [h₁]
    exact ih _

/-- A visit of the held directory reads it anew. -/
def Visit.Rereads (dst : Uuid) (c : ObjectLocks) : Visit → Prop
  | .revalidate uuid o => uuid = dst ∧ c.rereads o = true
  | .evict _ => False

section Walked

variable (v : Visit)

/-- A visit leaves the held directory as it is, or revalidates it through its
dentry. -/
theorem Visit.visited_object (dst : Uuid) (s : Locks) :
    (¬ v.Rereads dst (s (.object dst)) ∧
      v.visited (some dst) s (.object dst) = s (.object dst)) ∨
    ∃ o : DentryOutcome, o.instantiated = true ∧
      (v.Rereads dst (s (.object dst)) ↔ (s (.object dst)).rereads o = true) ∧
      v.visited (some dst) s (.object dst) =
        ((s (.object dst)).dentryRevalidate nexusFread o).1 := by
  cases v with
  | revalidate uuid o =>
    by_cases huuid : uuid = dst
    · cases huuid
      refine .inr ⟨o.through true, by simp [through], ?_, ?_⟩
      · rw [rereads_through]
        simp [Visit.Rereads]
      · simp [visited]
    · have hne : Lockable.object dst ≠ .object uuid := by simpa using Ne.symm huuid
      exact .inl ⟨fun hreads => huuid hreads.1, update_of_ne hne _ _⟩
  | evict uuid =>
    refine .inl ⟨id, ?_⟩
    simp only [visited]
    split
    · rfl
    next hne =>
      have hne' : Lockable.object dst ≠ .object uuid := by simpa using hne
      exact update_of_ne hne' _ _

variable {v}

theorem Visit.visited_keeps {P : ObjectLocks → Prop} (hP : ∀ {c : ObjectLocks} {o : DentryOutcome},
    o.instantiated = true → P c → P (c.dentryRevalidate nexusFread o).1) (v : Visit)
    (h : P (s (.object dst))) : P (v.visited (some dst) s (.object dst)) := by
  obtain ⟨-, hsame⟩ | ⟨o, hinst, -, hafter⟩ := v.visited_object dst s
  · rwa [hsame]
  · rw [hafter]
    exact hP hinst h

theorem Visit.visited_rereads (h : (s (.object dst)).Held)
    (hv : v.Rereads dst (s (.object dst))) : (v.visited (some dst) s (.object dst)).Stuck := by
  obtain ⟨hnot, -⟩ | ⟨o, hinst, hiff, hafter⟩ := v.visited_object dst s
  · exact absurd hv hnot
  · have hstuck := h.dentryRevalidate_read hinst
    rw [if_pos (hiff.mp hv)] at hstuck
    rwa [hafter]

theorem Visit.visited_held (h : (s (.object dst)).Held)
    (hv : ¬ v.Rereads dst (s (.object dst))) :
    v.visited (some dst) s (.object dst) = s (.object dst) := by
  obtain ⟨-, hsame⟩ | ⟨o, hinst, hiff, hafter⟩ := v.visited_object dst s
  · exact hsame
  · have hsame := h.dentryRevalidate_read hinst
    rw [if_neg (mt hiff.mpr hv)] at hsame
    rwa [hafter]

/-- The directory is free, or held and not read anew on the walk. -/
def Steady (dst : Uuid) (visits : List Visit) (c : ObjectLocks) : Prop :=
  c.Free ∨ c.Held ∧ ∀ v ∈ visits, ¬ v.Rereads dst c

variable {visits : List Visit}

theorem Steady.ready {c : ObjectLocks} (h : Steady dst visits c) :
    c.Ready :=
  h.imp id And.left

theorem Steady.visited (h : Steady dst (v :: visits) (s (.object dst))) :
    Steady dst visits (v.visited (some dst) s (.object dst)) := by
  obtain hfree | ⟨hheld, hvisits⟩ := h
  · exact .inl (visited_keeps (fun _ h => h.dentryRevalidate_read _) v hfree)
  · rw [visited_held hheld (hvisits v mem_cons_self)]
    exact .inr ⟨hheld, fun w hw => hvisits w (mem_cons_of_mem v hw)⟩

theorem Visit.visited_ready (h : ReadyIn [.object dst] s) (v : Visit)
    (hready : (v.visited (some dst) s (.object dst)).Ready) :
    ReadyIn [.object dst] (v.visited (some dst) s) := by
  have hother : ∀ x ∉ [Lockable.object dst], (v.visited (some dst) s x).Free := by
    intro x hx
    cases v with
    | revalidate uuid o =>
      rw [visited, update_apply]
      split
      next hxu => exact (h.free _ (hxu ▸ hx)).dentryRevalidate_read _
      · exact h.free x hx
    | evict uuid =>
      simp only [visited]
      split
      · exact h.free x hx
      · exact (h.update_free _ (evict_free _)).free x hx
  refine ⟨fun x => ?_, hother⟩
  by_cases hx : x = .object dst
  · rw [hx]
    exact hready
  · exact .inl (hother x (by simpa using hx))

/-! The walk, by induction on its visits. -/

theorem walked_keeps {P : ObjectLocks → Prop} (hP : ∀ {c : ObjectLocks} {o : DentryOutcome},
    o.instantiated = true → P c → P (c.dentryRevalidate nexusFread o).1) (visits : List Visit)
    (h : P (s (.object dst))) : P (walked (some dst) visits s (.object dst)) := by
  induction visits generalizing s with
  | nil => exact h
  | cons v visits ih => exact ih (visited_keeps hP v h)

theorem walked_disturbed (hheld : (s (.object dst)).Held)
    (h : ∃ v ∈ visits, v.Rereads dst (s (.object dst))) :
    (walked (some dst) visits s (.object dst)).Stuck := by
  induction visits generalizing s with
  | nil => simp at h
  | cons v visits ih =>
    by_cases hv : v.Rereads dst (s (.object dst))
    · have hstuck := visited_rereads hheld hv
      exact walked_keeps (fun hinst h => h.dentryRevalidate_read hinst) visits hstuck
    · have hsame := visited_held hheld hv
      refine ih (by rwa [hsame]) ?_
      rw [hsame]
      simpa [hv] using h

theorem walked_steady (h : ReadyIn [.object dst] s)
    (hsteady : Steady dst visits (s (.object dst))) :
    ReadyIn [.object dst] (walked (some dst) visits s) := by
  induction visits generalizing s with
  | nil => exact h
  | cons v visits ih => exact ih (v.visited_ready h hsteady.visited.ready) hsteady.visited

theorem walked_held (hheld : (s (.object dst)).Held)
    (h : ∀ v ∈ visits, ¬ v.Rereads dst (s (.object dst))) :
    walked (some dst) visits s (.object dst) = s (.object dst) := by
  induction visits generalizing s with
  | nil => rfl
  | cons v visits ih =>
    have hsame := visited_held hheld (h v mem_cons_self)
    rw [← hsame] at hheld h
    exact (ih hheld fun w hw => h w (mem_cons_of_mem v hw)).trans hsame

theorem walked_hardlinkTable (held : Option Uuid) (visits : List Visit) (s : Locks) :
    walked held visits s .hardlinkTable = s .hardlinkTable := by
  induction visits generalizing s with
  | nil => rfl
  | cons v visits ih =>
    refine (ih _).trans ?_
    cases v with
    | revalidate uuid o => simp [visited]
    | evict uuid =>
      simp only [visited]
      split <;> simp

end Walked

/-! ## Hardlinks -/

/-- The hardlink table is not rejected after it was locked, the changed one is stored,
and the buckets of the directory are kept if it is stored. -/
def Hardlink.Linked (c : ObjectLocks) (stores : Prop) (o : Hardlink) : Prop :=
  o.isFile = true → Acquires c o.table ∧
    (c.acquireEnding o.table = .held → o.tablePut.succeeds = true ∧
      (o.added = true → stores → bucketsKept o.put.buckets = true))

/-- The directory that is stored is the one that was changed, or an earlier call has
left it changed. -/
theorem fsHardlink_ensures (h : ReadyIn [.object dst] s) (o : Hardlink) :
    Ensures (fsHardlink src dst o) s fun _ s' =>
      SettlesIn [.object dst] (o.Linked (s .hardlinkTable)
        (src = dst ∨ (s (.object dst)).skipsStore = false)) s' := by
  unfold fsHardlink Hardlink.Linked
  cases o.isFile with
  | false => exact ensures_pure (settlesIn_of_ready h nofun)
  | true =>
    refine ensures_bind (ensures_acquire (h.free _ (by simp)) o.table ?_ ?_ ?_)
    · intro he c hc
      exact ensures_pure (settlesIn_of_ready (h.update_free _ hc) (by simp [Acquires, he]))
    · intro he c hc
      exact ensures_pure (settlesIn_of_leak (leaksAside_update rfl hc.writers)
        (by simp [Acquires, he]))
    · intro he c hc _
      simp only [Acquires, he]
      refine ensures_markDirty hc fun c₁ hc₁ hmust => ?_
      refine ensures_bind (ensures_flush_update hc₁ hmust o.tablePut ?_ ?_)
      · intro hput c₂ hc₂
        have h₂ := h.update_free .hardlinkTable hc₂
        cases o.added with
        | false => exact ensures_pure (settlesIn_of_ready h₂ (by simp [hput]))
        | true =>
          have hdirty := h₂.modify (.object src) (f := (·.setDirty)) (·.setDirty) (·.setDirty)
          refine ensures_bind (ensures_modifyObject ?_)
          refine (storeObject_ensures hdirty (by simp) dst o.put).mono fun _ s' hs' => ?_
          by_cases hsrc : src = dst
          · simpa [hsrc, hput] using hs'.2
          · simpa [hsrc, Ne.symm hsrc, hput] using hs'.2
      · intro hput c₂ hc₂
        exact ensures_pure (settlesIn_of_leak (leaksAside_update rfl (by simp [hc₂.writers]))
          (by simp [hput]))

theorem finishHardlink_ensures (h : ReadyIn [.object dst] s) (o : Hardlink) :
    Ensures (finishHardlink src dst o) s fun _ s' =>
      Settles (o.Linked (s .hardlinkTable)
        (src = dst ∨ (s (.object dst)).skipsStore = false)) s' := by
  unfold finishHardlink
  refine (fsHardlink_ensures h o).bind fun ok s₁ h₁ => ?_
  refine (h₁.then (fun hready => ensures_release_ready hready _ _)
    (leavesAside_release rfl _)).bind fun _ s₂ h₂ => ?_
  exact (h₂.then (fun hready => release_drop hready _) (leavesAside_release rfl _)).bind
    fun _ _ h₃ => ensures_pure h₃.settles

theorem finishHardlink_stuck (src dst : Uuid) (o : Hardlink) :
    Preserves (.object dst) ObjectLocks.Stuck (finishHardlink src dst o) := by
  have hput : ∀ (uuid : Uuid) (r : OcallResult),
      Preserves (.object dst) ObjectLocks.Stuck (nexusVfsPut uuid r) :=
    fun uuid r => preserves_modifyObject _ fun _ _ hc => hc.unlock r
  have hlink : Preserves (.object dst) ObjectLocks.Stuck (fsHardlink src dst o) := by
    unfold fsHardlink
    cases o.isFile with
    | false => exact preserves_pure _
    | true =>
      refine (preserves_onObject _ nofun).bind fun acquired => ?_
      cases acquired with
      | false => exact preserves_pure _
      | true =>
        refine (preserves_modifyObject _ nofun).bind fun _ => ?_
        refine (preserves_onObject _ nofun).bind fun flushed => ?_
        cases flushed with
        | false => exact preserves_pure _
        | true =>
          cases o.added with
          | false => exact preserves_pure _
          | true =>
            exact (preserves_modifyObject _ fun _ _ hc => hc.setDirty).bind fun _ =>
              preserves_storeObject (fun _ put hc => hc.store put) o.put
  exact hlink.bind fun _ => (hput _ _).bind fun _ => (hput _ _).bind fun _ => preserves_pure _

/-- The held directory is not read anew before the other one is got. -/
def Hardlink.Undisturbed (dst : Uuid) (c : ObjectLocks) (o : Hardlink) : Prop :=
  (∀ v ∈ o.visits, ¬ v.Rereads dst c) ∧ (o.src.found = some dst → c.rereads o.src.get = false)

/-- The other directory is found and got. -/
def Hardlink.Reaches (dst : Uuid) (s : Locks) (o : Hardlink) : Prop :=
  ∃ src, o.src.found = some src ∧
    (walked (some dst) o.visits s (.object src)).dentryReads
      (o.src.get.through (decide (src = dst))) = true

/-- The get of the other directory changes nothing that is held, and its result is
known. -/
theorem get_beside (h : ReadyIn [.object dst] s) (src : Uuid) (o : DentryOutcome)
    (hsteady : (s (.object dst)).Free ∨
      (s (.object dst)).Held ∧ (src = dst → (s (.object dst)).rereads o = false)) :
    ReadyIn [.object dst] (update s (.object src)
        ((s (.object src)).dentryRevalidate nexusFread (o.through (decide (src = dst)))).1) ∧
      ((s (.object src)).dentryRevalidate nexusFread (o.through (decide (src = dst)))).2 =
        (s (.object src)).dentryReads (o.through (decide (src = dst))) := by
  have hfree : (s (.object src)).Free → _ := fun hsrc =>
    And.intro (h.update_free (.object src)
      (hsrc.dentryRevalidate_read (o.through (decide (src = dst)))))
      (hsrc.dentryRevalidate_reads (o.through (decide (src = dst))))
  by_cases hsrc : src = dst
  · cases hsrc
    obtain hdst | ⟨hheld, hquiet⟩ := hsteady
    · exact hfree hdst
    · have hinst : (o.through true).instantiated = true := by simp [through]
      have hsame := hheld.dentryRevalidate_read hinst
      rw [rereads_through, hquiet rfl, if_neg Bool.false_ne_true] at hsame
      obtain ⟨m, hm, -⟩ := hheld.locked
      rw [decide_eq_true rfl, hsame, update_eq_self]
      exact ⟨h, dentryRevalidate_reads_of_instantiated hm hheld.clean hinst⟩
  · exact hfree (h.free _ (by simpa using hsrc))

/-- The directory is the other one as well, or an earlier call has left it changed. -/
def Hardlink.Stores (dst : Uuid) (c : ObjectLocks) (o : Hardlink) : Prop :=
  o.src.found = some dst ∨ c.skipsStore = false

theorem linkAcross_steady (h : ReadyIn [.object dst] s) (o : Hardlink)
    (hsteady : (s (.object dst)).Free ∧ (s (.object dst)).skipsStore = true ∨
      (s (.object dst)).Held ∧ o.Undisturbed dst (s (.object dst))) :
    Ensures (linkAcross dst o) s fun _ s' =>
      Settles (o.Reaches dst s →
        o.Linked (s .hardlinkTable) (o.Stores dst (s (.object dst)))) s' := by
  unfold linkAcross
  refine (ensures_walked _ _ s).bind fun _ s₁ hwalked => ?_
  have h₁ : ReadyIn [.object dst] s₁ := by
    rw [hwalked]
    exact walked_steady h (hsteady.imp And.left fun hh => ⟨hh.1, hh.2.1⟩)
  have hskips : (s₁ (.object dst)).skipsStore = (s (.object dst)).skipsStore := by
    rw [hwalked]
    obtain ⟨-, hskips⟩ | ⟨hheld, hvisits, -⟩ := hsteady
    · have hafter := walked_keeps (P := fun c => c.skipsStore = true)
        (fun _ h => skipsStore_dentryRevalidate_read h _) o.visits hskips
      rw [hskips, hafter]
    · rw [walked_held hheld hvisits]
  have hput : ∀ {s' : Locks}, ReadyIn [.object dst] s' → ¬ o.Reaches dst s →
      Ensures (do
        nexusVfsPut dst o.dst.release
        pure false) s' fun _ s'' =>
          Settles (o.Reaches dst s →
            o.Linked (s .hardlinkTable) (o.Stores dst (s (.object dst)))) s'' := by
    intro s' h' hnot
    refine (release_drop h' _).bind fun _ s'' h'' => ensures_pure ?_
    exact settles_of_free h'' fun hreaches => absurd hreaches hnot
  cases hfound : o.src.found with
  | none => exact hput h₁ (by simp [Hardlink.Reaches, hfound])
  | some src =>
    have hget := get_beside h₁ src o.src.get (by
      rw [hwalked]
      obtain ⟨hfree, -⟩ | ⟨hheld, hvisits, hsrc⟩ := hsteady
      · exact .inl (walked_keeps (fun _ h => h.dentryRevalidate_read _) o.visits hfree)
      · rw [walked_held hheld hvisits]
        exact .inr ⟨hheld, fun hsame => hsrc (hsame ▸ hfound)⟩)
    refine ensures_bind (ensures_onObject ?_)
    rw [hget.2]
    cases hreads : (s₁ (.object src)).dentryReads (o.src.get.through (decide (src = dst))) with
    | false =>
      refine hput hget.1 ?_
      rintro ⟨src', hsrc', hgot⟩
      rw [hfound] at hsrc'
      cases hsrc'
      rw [← hwalked, hreads] at hgot
      cases hgot
    | true =>
      have hreaches : o.Reaches dst s := ⟨src, hfound, by rw [← hwalked]; exact hreads⟩
      have hstores : (src = dst ∨ (update s₁ (.object src) ((s₁ (.object src)).dentryRevalidate
          nexusFread (o.src.get.through (decide (src = dst)))).1 (.object dst)).skipsStore = false) ↔
            o.Stores dst (s (.object dst)) := by
        by_cases hsrc : src = dst
        · simp [Hardlink.Stores, hfound, hsrc]
        · simp [Hardlink.Stores, hfound, hsrc, Ne.symm hsrc, hskips]
      refine (finishHardlink_ensures hget.1 o).mono fun _ s' hs' => ?_
      rw [hstores, update_of_ne (by simp), hwalked, walked_hardlinkTable] at hs'
      simpa [hreaches] using hs'

theorem linkAcross_disturbed (hheld : (s (.object dst)).Held) (o : Hardlink)
    (h : ¬ o.Undisturbed dst (s (.object dst))) :
    Ensures (linkAcross dst o) s fun _ s' => (s' (.object dst)).Stuck := by
  have hput : Preserves (.object dst) ObjectLocks.Stuck (do
      nexusVfsPut dst o.dst.release
      pure false) :=
    (preserves_modifyObject _ fun _ _ hc => hc.unlock _).bind fun _ => preserves_pure _
  unfold linkAcross
  refine (ensures_walked _ _ s).bind fun _ s₁ hwalked => ?_
  by_cases hvisits : ∀ v ∈ o.visits, ¬ v.Rereads dst (s (.object dst))
  · -- the directory is the other one as well, and its get reads it
    have hsame : s₁ (.object dst) = s (.object dst) := by
      rw [hwalked, walked_held hheld hvisits]
    have hsrc : o.src.found = some dst ∧ (s (.object dst)).rereads o.src.get = true := by
      have hsrc : ¬ (o.src.found = some dst → (s (.object dst)).rereads o.src.get = false) :=
        fun hquiet => h ⟨hvisits, hquiet⟩
      simpa using hsrc
    have hinst : (o.src.get.through true).instantiated = true := by simp [through]
    have hstuck := hheld.dentryRevalidate_read hinst
    rw [rereads_through, if_pos hsrc.2, ← hsame] at hstuck
    rw [hsrc.1]
    refine ensures_bind (ensures_onObject ?_)
    rw [decide_eq_true rfl]
    have hafter : (update s₁ (.object dst)
        ((s₁ (.object dst)).dentryRevalidate nexusFread (o.src.get.through true)).1
          (.object dst)).Stuck := by
      rwa [update_self]
    cases ((s₁ (.object dst)).dentryRevalidate nexusFread (o.src.get.through true)).2 with
    | false => exact hput _ hafter
    | true => exact finishHardlink_stuck dst dst o _ hafter
  · have hstuck : (s₁ (.object dst)).Stuck := by
      rw [hwalked]
      exact walked_disturbed hheld (by simpa using hvisits)
    cases o.src.found with
    | none => exact hput s₁ hstuck
    | some src =>
      have hget : Preserves (.object dst) ObjectLocks.Stuck
          (dentryGetMetadata src nexusFread (o.src.get.through (decide (src = dst)))) := by
        refine preserves_onObject _ fun hsrc c hc => ?_
        cases hsrc
        exact hc.dentryRevalidate_read (by simp [through])
      refine (hget.bind fun got => ?_) s₁ hstuck
      cases got with
      | false => exact hput
      | true => exact finishHardlink_stuck src dst o

/-- The directory is opened, it is not read anew while it is held, and the hardlink
table and the buckets are given back if they are used. -/
def Hardlink.Released (s : Locks) (o : Hardlink) : Prop :=
  o.dst.Opens s fun dst =>
    if o.samePath then o.Linked (s .hardlinkTable) True
    else
      ((s (.object dst)).dentryEnding o.dst.get = .held →
        o.Undisturbed dst (o.dst.got s nexusFrdwr dst)) ∧
      (o.Reaches dst (update s (.object dst) (o.dst.got s nexusFrdwr dst)) →
        o.Linked (s .hardlinkTable) (o.Stores dst (o.dst.got s nexusFrdwr dst)))

theorem ecallFsHardlink_ensures (h : ReadyIn [] s) (o : Hardlink) :
    Ensures (ecallFsHardlink o) s fun _ s' => Settles (o.Released s) s' := by
  unfold ecallFsHardlink Hardlink.Released ObjectGet.Opens
  cases o.dst.found with
  | none => exact ensures_pure (settles_of_free h trivial)
  | some dst =>
    have hobject := h.free (.object dst) not_mem_nil
    have htable (c : ObjectLocks) : update s (.object dst) c .hardlinkTable = s .hardlinkTable :=
      update_of_ne (by simp) _ _
    have hsamePath {c : ObjectLocks} (h₁ : ReadyIn [.object dst] (update s (.object dst) c)) :
        Ensures (finishHardlink dst dst o) (update s (.object dst) c) fun _ s' =>
          Settles (o.Linked (s .hardlinkTable) True) s' := by
      have hfinish : Ensures (finishHardlink dst dst o) _ _ := finishHardlink_ensures h₁ o
      simpa [htable] using hfinish
    refine ensures_bind (ensures_ending (hobject.dentryRevalidate_ends o.dst.get) ?_ ?_ ?_ ?_)
    · intro he hfree
      exact ensures_pure (settles_of_free (h.update_free _ hfree) (by simp [he, Ending.succeeds]))
    · intro he hlost
      exact ensures_pure (settles_of_leak (leaks_update hlost.writers) (by simp [he]))
    · intro he hheld
      have h₁ := readyIn_update_held (x := .object dst) h hheld
      cases hpath : o.samePath with
      | true =>
        exact (hsamePath h₁).mono fun _ s' hs' => by simpa [he, Ending.succeeds] using hs'
      | false =>
        by_cases hund : o.Undisturbed dst (o.dst.got s nexusFrdwr dst)
        · have hsteady := linkAcross_steady h₁ o (.inr (by
            rw [update_self]
            exact ⟨hheld, hund⟩))
          refine hsteady.mono fun _ s' hs' => ?_
          rw [htable, update_self, ← ObjectGet.got] at hs'
          simpa [he, Ending.succeeds, hund] using hs'
        · have hstuck := linkAcross_disturbed (s := update s (.object dst)
            ((s (.object dst)).dentryRevalidate nexusFrdwr o.dst.get).1)
            (by rwa [update_self]) o (by rwa [update_self])
          refine hstuck.mono fun _ s' hs' => settles_of_leak ⟨.object dst, ?_⟩ ?_
          · simp [hs'.writers]
          · simp [he, Ending.succeeds, hund]
    · intro he hnew
      have h₁ := (h.update_free (.object dst) hnew.toFree).cons (.object dst)
      cases hpath : o.samePath with
      | true =>
        exact (hsamePath h₁).mono fun _ s' hs' => by simpa [he, Ending.succeeds] using hs'
      | false =>
        have hsteady := linkAcross_steady h₁ o (.inl (by
          rw [update_self]
          exact ⟨hnew.toFree, hnew.fresh⟩))
        refine hsteady.mono fun _ s' hs' => ?_
        rw [htable, update_self, ← ObjectGet.got] at hs'
        simpa [he, Ending.succeeds] using hs'

/-! ## Renames -/

variable {held : List Lockable}

/-- The buckets of the source are kept, and those of the destination if its store
comes to them. -/
def Rename.Stores (second : Bool) (o : Rename) : Prop :=
  o.renamed = true → bucketsKept o.srcPut.buckets = true ∧
    (second = true → bucketsKept o.dstPut.buckets = true)

/-- The first store of a rename from here succeeds, and the second one is of another
directory. -/
def Rename.storesSecond (s : Locks) (src dst : Uuid) (o : Rename) : Bool :=
  let c := (s (.object src)).setDirty
  decide (dst ≠ src) && (c.store (o.srcPut.put c)).2

theorem renameAndStore_ensures (h : ReadyIn held s) (hheld : ∀ uuid, Lockable.bucket uuid ∉ held)
    (src dst : Uuid) (o : Rename) :
    Ensures (renameAndStore src dst o) s fun _ s' =>
      SettlesIn held (o.Stores (o.storesSecond s src dst)) s' := by
  unfold renameAndStore Rename.Stores Rename.storesSecond
  cases o.renamed with
  | false => exact ensures_pure (settlesIn_of_ready h nofun)
  | true =>
    have h₁ := h.modify (.object src) (f := (·.setDirty)) (·.setDirty) (·.setDirty)
    have h₂ := h₁.modify (.object dst) (f := (·.setDirty)) (·.setDirty) (·.setDirty)
    refine ensures_bind (ensures_modifyObject (ensures_bind (ensures_modifyObject ?_)))
    generalize hs₂ : update _ (Lockable.object dst) _ = s₂ at h₂ ⊢
    have hsrc : s₂ (.object src) = (s (.object src)).setDirty := by
      by_cases hdst : dst = src
      · rw [← hs₂, hdst, update_self, update_self, setDirty_setDirty]
      · have hne : Lockable.object src ≠ .object dst := by simpa using Ne.symm hdst
        rw [← hs₂, update_of_ne hne, update_self]
    have hdst : (s₂ (.object dst)).skipsStore = false := by
      rw [← hs₂, update_self, skipsStore_setDirty]
    refine ((storeObject_ensures h₂ hheld src o.srcPut).and fun _ _ hrun => hrun).bind ?_
    rintro ok s₃ ⟨⟨hstore, h₃⟩, hrun⟩
    rw [hsrc] at hstore h₃
    simp only [skipsStore_setDirty, true_imp_iff] at h₃
    dsimp only
    rw [hstore]
    cases ok with
    | false => exact ensures_pure (by simpa using h₃)
    | true =>
      -- the store has come to its put, so that every bucket is stored
      have hkept : bucketsKept o.srcPut.buckets = true := by
        have hreached := store_reached (skipsStore_setDirty _) (congrArg Prod.snd hstore)
        simp only [DirPut.put, PutOutcome.after, skipsStore_setDirty, Bool.false_or,
          Bool.and_eq_true] at hreached
        exact Bool.of_not_eq_false fun hlost =>
          Bool.false_ne_true ((bucketsStored_of_not_kept hlost).symm.trans hreached.2)
      refine (storeObject_ensures (h₃.1 hkept) hheld dst o.dstPut).mono fun _ s' hs' => ?_
      by_cases heq : dst = src
      · have hopened : ∀ m ∈ (s (.object src)).setDirty.metadata, m.flags.fcreate = false :=
          (h.ready _).setDirty.elim (·.opened) (·.opened)
        have hskips := skipsStore_of_store hopened hstore
        rw [heq] at hs'
        simpa [heq, hkept, hskips] using hs'.2
      · have hne : Lockable.object dst ≠ .object src := by simpa using heq
        have hsame := storeObject_leaves (by simp) hne o.srcPut s₂ _ _ hrun
        rw [hsame, hdst] at hs'
        simpa [heq, hkept] using hs'.2

theorem finishRename_ensures (h : ReadyIn [.object src, .object dst] s) (p q : ObjectGet)
    (o : Rename) :
    Ensures (finishRename p q src dst o) s fun _ s' =>
      Settles (o.Stores (o.storesSecond s src dst)) s' := by
  unfold finishRename
  refine (renameAndStore_ensures h (by simp) src dst o).bind fun _ s₁ h₁ => ?_
  refine (h₁.then (fun hready => release_drop hready _) (leavesAside_release rfl _)).bind
    fun _ s₂ h₂ => ?_
  exact (h₂.then (fun hready => release_drop hready _) (leavesAside_release rfl _)).bind
    fun _ _ h₃ => ensures_pure h₃.settles

theorem finishRename_twice (h : (s (.object src)).Twice) (p q : ObjectGet) (o : Rename) :
    Ensures (finishRename p q src src o) s fun _ s' => (s' (.object src)).Dropped := by
  have hdirty : Preserves (.object src) ObjectLocks.Twice (markDirty (.object src)) :=
    preserves_modifyObject _ fun _ _ hc => hc.setDirty
  have hflush : ∀ put : DirPut,
      Preserves (.object src) ObjectLocks.Unbalanced (storeObject src put) :=
    fun put => preserves_storeObject (fun _ o hc => hc.store o) put
  have hstore : Ensures (renameAndStore src src o) s fun _ s' =>
      (s' (.object src)).Unbalanced := by
    unfold renameAndStore
    cases o.renamed with
    | false => exact ensures_pure (.inl h)
    | true =>
      refine (hdirty s h).bind fun _ s₁ h₁ => ?_
      refine (hdirty s₁ h₁).bind fun _ s₂ h₂ => ?_
      exact (hflush _ s₂ (.inl h₂)).guard rfl (hflush _)
  unfold finishRename
  refine hstore.bind fun _ s₁ h₁ => ?_
  refine ensures_bind (ensures_modifyObject (ensures_bind (ensures_modifyObject
    (ensures_pure ?_))))
  simp only [update_self]
  exact (h₁.unlock _).unlock _

/-- The store of a directory that is held and changed succeeds. -/
def DirPut.succeeds (o : DirPut) : Bool := (o.main.after (bucketsStored o.buckets)).succeeds

/-- When a rename between two directories gives back what it takes. -/
def Rename.Across (p q : ObjectGet) (src dst : Uuid) (s : Locks) (o : Rename) : Prop :=
  let c := update s (.object src) (p.got s nexusFrdwr src) (.object dst)
  match (s (.object src)).dentryEnding p.get with
  -- the destination must not be locked
  | .refused => c.dentryEnding q.get ≠ .orphaned ∧ c.dentryEnding q.get ≠ .held
  -- the lock of the source must be forgotten
  | .orphaned => dst = src ∧ c.loadEnding q.get.instantiated q.get.load = .replaced
  | .held =>
    if dst = src then c.reads { q.get.load.revalidate with uninit := false } = true ∧
      q.get.load.revalidate.read.get ≠ .ok
    else c.dentryEnding q.get ≠ .orphaned ∧
      ((c.dentryEnding q.get).succeeds = true → o.Stores o.srcPut.succeeds)
  -- the source is not locked, so that its store fails
  | .replaced =>
    if dst = src then (c.dentryEnding (q.get.through true)).succeeds = true → o.Stores false
    else c.dentryEnding q.get ≠ .orphaned ∧
      ((c.dentryEnding q.get).succeeds = true → o.Stores false)

theorem renameAcross_beside (h : ReadyIn [.object src] s) (hne : dst ≠ src) (p q : ObjectGet)
    (o : Rename) :
    Ensures (do
      let hasDst ← dentryGetMetadata dst nexusFrdwr q.get
      if !hasDst then
        nexusVfsPut src p.release
        return false
      finishRename p q src dst o) s fun _ s' =>
        Settles ((s (.object dst)).dentryEnding q.get ≠ .orphaned ∧
          (((s (.object dst)).dentryEnding q.get).succeeds = true →
            o.Stores (o.storesSecond s src dst))) s' := by
  have hdst : (s (.object dst)).Free := h.free _ (by simpa using hne)
  have hrest : ∀ c : ObjectLocks, c.Ready →
      Ensures (finishRename p q src dst o) (update s (.object dst) c) fun _ s' =>
        Settles (o.Stores (o.storesSecond s src dst)) s' := by
    intro c hc
    have hboth : ReadyIn [.object src, .object dst] s :=
      ⟨h.ready, fun x hx => h.free x fun hmem => hx (mem_cons.mpr (.inl (by simpa using hmem)))⟩
    have hsrc : update s (.object dst) c (.object src) = s (.object src) :=
      update_of_ne (by simpa using Ne.symm hne) _ _
    have hfinish := finishRename_ensures (hboth.update_ready (x := .object dst) (by simp) hc) p q o
    unfold Rename.storesSecond at hfinish
    rw [hsrc] at hfinish
    exact hfinish
  refine ensures_bind (ensures_ending (hdst.dentryRevalidate_ends q.get) ?_ ?_ ?_ ?_)
  · intro he hfree
    refine (release_drop (h.update_free _ hfree) p.release).bind fun _ s₁ h₁ => ?_
    exact ensures_pure (settles_of_free h₁ (by simp [he, Ending.succeeds]))
  · intro he hlost
    have hleaves : Leaves (.object dst) (do
        nexusVfsPut src p.release
        pure false) :=
      (leaves_modifyObject (by simpa using hne) _).bind fun _ => leaves_pure _ _
    refine (hleaves.writers ?_).mono fun _ s' h' => settles_of_leak ⟨_, h'⟩ (by simp [he])
    rw [update_self]
    exact hlost.writers
  · intro he hheld
    exact (hrest _ (.inr hheld)).mono fun _ _ h' => by simpa [he, Ending.succeeds] using h'
  · intro he hnew
    exact (hrest _ (.inl hnew.toFree)).mono fun _ _ h' => by simpa [he, Ending.succeeds] using h'

theorem renameAcross_again (h : ReadyIn [.object src] s) (p q : ObjectGet) (o : Rename)
    (hready : ((s (.object src)).dentryRevalidate nexusFrdwr (q.get.through true)).1.Ready) :
    Ensures (do
      let hasDst ← dentryGetMetadata src nexusFrdwr (q.get.through true)
      if !hasDst then
        nexusVfsPut src p.release
        return false
      finishRename p q src src o) s fun _ s' =>
        Settles (((s (.object src)).dentryRevalidate nexusFrdwr (q.get.through true)).2 = true →
          o.Stores false) s' := by
  refine ensures_bind (ensures_onObject ?_)
  have h₁ := h.update_ready mem_cons_self hready
  cases ((s (.object src)).dentryRevalidate nexusFrdwr (q.get.through true)).2 with
  | false =>
    exact (release_drop h₁ p.release).bind fun _ _ h₂ => ensures_pure (settles_of_free h₂ nofun)
  | true => simpa [Rename.storesSecond] using finishRename_ensures (h₁.cons (.object src)) p q o

/-- A directory that is held and got again has two writers, unless the second get
fails early. -/
theorem renameAcross_held (h : ReadyIn [.object src] s) (hheld : (s (.object src)).Held)
    (p q : ObjectGet) (o : Rename) :
    Ensures (do
      let hasDst ← dentryGetMetadata src nexusFrdwr (q.get.through true)
      if !hasDst then
        nexusVfsPut src p.release
        return false
      finishRename p q src src o) s fun _ s' =>
        Settles ((s (.object src)).reads q.get.load.cached = true ∧
          q.get.load.revalidate.read.get ≠ .ok) s' := by
  have hinst : (q.get.through true).instantiated = true := by simp [through]
  have hagain := hheld.dentryRevalidate_again hinst
  by_cases hcond : (s (.object src)).reads q.get.load.cached = true ∧
      q.get.load.revalidate.read.get ≠ .ok
  · rw [if_pos (by simpa [through] using hcond)] at hagain
    refine (renameAcross_again h p q o (.inr hagain.2)).mono fun _ _ h' => ?_
    exact settles_of_free (h'.1 (by simp [hagain.1])) hcond
  · rw [if_neg (by simpa [through] using hcond)] at hagain
    have hleak : ∀ {s' : Locks}, (s' (.object src)).Dropped →
        Settles ((s (.object src)).reads q.get.load.cached = true ∧
          q.get.load.revalidate.read.get ≠ .ok) s' :=
      fun hdropped => settles_of_leak ⟨.object src, hdropped.writers⟩ hcond
    refine ensures_bind (ensures_onObject ?_)
    cases ((s (.object src)).dentryRevalidate nexusFrdwr (q.get.through true)).2 with
    | false =>
      refine ensures_bind (ensures_modifyObject (ensures_pure (hleak ?_)))
      simp only [update_self]
      exact hagain.unlock p.release
    | true =>
      exact (finishRename_twice (by rwa [update_self]) p q o).mono fun _ _ h' => hleak h'

/-! The first store, by how the source was got. -/

theorem storesSecond_of_held {o : Rename} (h : (s (.object src)).Held) (hne : dst ≠ src) :
    o.storesSecond s src dst = o.srcPut.succeeds := by
  have hstore := (h.setDirty.1.store h.setDirty.2 (o.srcPut.put (s (.object src)).setDirty)).1
  simp only [Rename.storesSecond, hstore]
  simp [hne, DirPut.put, DirPut.succeeds]

theorem storesSecond_of_replaced {o : Rename} (h : (s (.object src)).Replaced) :
    o.storesSecond s src dst = false := by
  simp [Rename.storesSecond, setDirty_store_fails h.mode]

theorem renameAcross_ensures (h : ReadyIn [] s) (p q : ObjectGet) (src dst : Uuid) (o : Rename) :
    Ensures (renameAcross p q src dst o) s fun _ s' => Settles (o.Across p q src dst s) s' := by
  have hsrc := h.free (.object src) not_mem_nil
  unfold renameAcross Rename.Across
  refine ensures_bind (ensures_ending (hsrc.dentryRevalidate_ends p.get) ?_ ?_ ?_ ?_)
  · -- the source is not got: whatever the destination locks is lost
    intro he hfree
    have h₁ := h.update_free (.object src) hfree
    simp only [he, Bool.false_and, through_false, ObjectGet.got]
    refine ensures_bind (ensures_ending
      ((h₁.free (.object dst) not_mem_nil).dentryRevalidate_ends q.get) ?_ ?_ ?_ ?_)
    · intro he₂ hfree₂
      exact ensures_pure (settles_of_free (h₁.update_free _ hfree₂) (by simp [he₂]))
    · intro he₂ hlost₂
      exact ensures_pure (settles_of_leak (leaks_update hlost₂.writers) (by simp [he₂]))
    · intro he₂ hheld₂
      exact ensures_pure (settles_of_leak (leaks_held hheld₂) (by simp [he₂]))
    · intro he₂ hnew₂
      exact ensures_pure (settles_of_free (h₁.update_free _ hnew₂.toFree) (by simp [he₂]))
  · intro he hlost
    simp only [he, Bool.false_and, through_false, ObjectGet.got]
    refine ensures_bind (ensures_onObject (ensures_pure ?_))
    by_cases hdst : dst = src
    · cases hdst
      have hagain := hlost.dentryRevalidate q.get
      simp only [update_self, update_idem, true_and]
      split at hagain
      next hreplaced => exact settles_of_free (h.update_free _ hagain) hreplaced
      next hreplaced => exact settles_of_leak (leaks_update hagain.writers) hreplaced
    · have hne : Lockable.object src ≠ .object dst := by simpa using Ne.symm hdst
      refine settles_of_leak ⟨.object src, ?_⟩ fun hcond => hdst hcond.1
      rw [update_of_ne hne, update_self]
      exact hlost.writers
  · intro he hheld
    have h₁ := readyIn_update_held (x := .object src) h hheld
    simp only [he, Bool.true_and, ObjectGet.got]
    by_cases hdst : dst = src
    · cases hdst
      simp only [decide_true, if_true]
      exact renameAcross_held h₁ (by rwa [update_self]) p q o
    · have hrest := renameAcross_beside h₁ hdst p q o
      rw [storesSecond_of_held (by rwa [update_self]) hdst] at hrest
      simp only [hdst, decide_false, through_false, if_false]
      exact hrest
  · intro he hnew
    have h₁ := (h.update_free (.object src) hnew.toFree).cons (.object src)
    simp only [he, Bool.true_and, ObjectGet.got]
    by_cases hdst : dst = src
    · -- the new copy is marked, so its release also undoes a second get that fails
      cases hdst
      have hok : ((s (.object src)).dentryRevalidate nexusFrdwr p.get).2 = true := by
        rw [(hsrc.dentryRevalidate_ends p.get).succeeds, he]
        rfl
      have hready := hnew.dentryRevalidate_ready (dentryRevalidate_marked hok)
        (o := q.get.through true) (by simp [through])
      have hrest := renameAcross_again h₁ p q o (by rwa [update_self])
      rw [update_self, (hnew.dentryRevalidate_ends (q.get.through true)).succeeds] at hrest
      simp only [decide_true, if_true, update_self]
      exact hrest
    · have hrest := renameAcross_beside h₁ hdst p q o
      rw [storesSecond_of_replaced (by rwa [update_self])] at hrest
      simp only [hdst, decide_false, through_false, if_false]
      exact hrest

def Rename.Released (s : Locks) (o : Rename) : Prop :=
  match o.dirs with
  | .one p => p.Opens s fun _ => o.Stores false
  | .two p q =>
    match p.found, q.found with
    | some src, some dst => o.Across p q src dst s
    | _, _ => True

theorem ecallFsRename_ensures (h : ReadyIn [] s) (o : Rename) :
    Ensures (ecallFsRename o) s fun _ s' => Settles (o.Released s) s' := by
  unfold ecallFsRename Rename.Released
  cases o.dirs with
  | one p =>
    refine withObject_ensures h p fun dir h₁ => ?_
    unfold Rename.Stores
    cases o.renamed with
    | false => exact ensures_pure (settlesIn_of_ready h₁ nofun)
    | true => simpa using markDirty_storeObject h₁ (by simp) dir o.srcPut
  | two p q =>
    dsimp only
    cases p.found with
    | none => exact ensures_pure (settles_of_free h trivial)
    | some src =>
      cases q.found with
      | none => exact ensures_pure (settles_of_free h trivial)
      | some dst => exact renameAcross_ensures h p q src dst o

end Nexus.Locking
