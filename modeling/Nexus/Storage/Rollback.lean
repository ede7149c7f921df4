import Nexus.Storage.ReadObject

/-!
# The version of a cached object

`nexus_metadata_reload` takes over the version of whatever authentic buffer the
datastore returns.  It has the version of the copy it replaces at hand, but does
not look at it.  So along a run the version of a cached object never decreases
exactly when the datastore never answers a read of it with an older copy.
-/

namespace Nexus

variable {α : Type}

/-- One call on the cached copy of an object. -/
inductive CacheCall where
  /-- `nexus_metadata_reload`. -/
  | reload
  /-- `nexus_metadata_revalidate`.  With flags in lock mode, `lock` is what
  `nexus_metadata_lock` returns. -/
  | revalidate (lock : Option Bool)
  /-- `nexus_metadata_store` of a modified copy: whether the put succeeds, and the
  timestamp that it returns, which is zero if the put is deferred. -/
  | store (ok : Bool) (now : Nat)

/-- A reload or a revalidation. -/
def CacheCall.isRead : CacheCall → Bool
  | .reload | .revalidate _ => true
  | .store _ _ => false

/-- A call, the puts of the volume by then, and what the datastore replies. -/
structure CacheEvent where
  call : CacheCall
  vault : Vault
  reply : Reply

/-- The timestamp of an entry after `__metadata_buf_update`. -/
def updatedTime (old : Option Nat) (timestamp : Nat) : Option Nat :=
  some (if timestamp ≠ 0 then timestamp else old.getD 0)

/-- `buffer_layer_get`: the timestamp is that of the buffer, also if the buffer is then
rejected. -/
def Reply.timeAfterGet (old : Option Nat) (r : Reply) : Option Nat :=
  match r.buffer with
  | none => old
  | some (_, timestamp) => updatedTime old timestamp

section Versions

variable (k : ObjectCodec α) (type : MetadataType) (uuid : Uuid)

/-- `nexus_metadata_reload`. -/
def CacheEvent.reload (m : Metadata α) (e : CacheEvent) : Metadata α × Bool :=
  let (m', ok) := nexusMetadataReload m (e.reply.answers k e.vault type uuid)
  ({ m' with timestamp := e.reply.timeAfterGet m.timestamp }, ok)

/-- The copy after the call, and whether the call succeeded.  A revalidation only locks
a copy that is unchanged. -/
def CacheEvent.run (m : Metadata α) (e : CacheEvent) : Metadata α × Bool :=
  match e.call with
  | .reload => e.reload k type uuid m
  | .revalidate lock =>
    if m.isInvalid then e.reload k type uuid m
    else if nexusMetadataHasChanged m (e.reply.answers k e.vault type uuid) then
      e.reload k type uuid m
    else (m, lock.getD true)
  | .store true now => ({ m with
      version := (m.version + 1) % 2 ^ 32
      timestamp := updatedTime m.timestamp now }, true)
  | .store false _ => ({ m with isInvalid := true }, false)

/-- The call reads the object again. -/
def CacheEvent.Reads (m : Metadata α) (e : CacheEvent) : Prop :=
  match e.call with
  | .reload => True
  | .revalidate _ =>
    m.isInvalid = true ∨ nexusMetadataHasChanged m (e.reply.answers k e.vault type uuid) = true
  | .store _ _ => False

/-- If the call reads the object, the datastore does not reply with a readable
buffer of an older version. -/
def CacheEvent.NotOlder (m : Metadata α) (e : CacheEvent) : Prop :=
  e.Reads k type uuid m → ∀ external timestamp, e.reply.buffer = some (external, timestamp) →
    readObject k e.vault type uuid external ≠ none →
      m.version ≤ (cryptoBufVersion external).toNat

/-- Every reload or revalidation that succeeds leaves the version at least as large
as it was. -/
def VersionsGrow : Metadata α → List CacheEvent → Prop
  | _, [] => True
  | m, e :: es =>
    (e.call.isRead = true → (e.run k type uuid m).2 = true →
        m.version ≤ (e.run k type uuid m).1.version) ∧
      VersionsGrow (e.run k type uuid m).1 es

/-- The datastore never rolls the object back. -/
def NeverOlder : Metadata α → List CacheEvent → Prop
  | _, [] => True
  | m, e :: es => e.NotOlder k type uuid m ∧ NeverOlder (e.run k type uuid m).1 es

variable {k type uuid}

/-- A reload keeps the version from decreasing exactly if no older copy is
returned. -/
theorem reload_version_iff {m : Metadata α} {e : CacheEvent} :
    ((e.reload k type uuid m).2 = true → m.version ≤ (e.reload k type uuid m).1.version) ↔
      ∀ external timestamp, e.reply.buffer = some (external, timestamp) →
        readObject k e.vault type uuid external ≠ none →
          m.version ≤ (cryptoBufVersion external).toNat := by
  obtain ⟨-, v, r⟩ := e
  show ((nexusMetadataReload m (r.answers k v type uuid)).2 = true →
    m.version ≤ (nexusMetadataReload m (r.answers k v type uuid)).1.version) ↔ _
  constructor
  · intro h external timestamp hbuffer hread
    obtain ⟨⟨object, version⟩, hread⟩ := Option.ne_none_iff_exists'.mp hread
    have hload := (nexusMetadataLoad_answers k v).mpr
      ⟨external, timestamp, object, version, hbuffer, hread, rfl⟩
    rw [nexusMetadataReload_eq_load.mpr hload] at h
    rw [← readObject_version hread]
    exact h rfl
  · intro h hok
    have hreload : nexusMetadataReload m (r.answers k v type uuid)
        = ((nexusMetadataReload m (r.answers k v type uuid)).1, true) := Prod.ext rfl hok
    obtain ⟨external, timestamp, object, version, hbuffer, hread, hm⟩ :=
      (nexusMetadataLoad_answers k v).mp (nexusMetadataReload_eq_load.mp hreload)
    have hle := h external timestamp hbuffer (by rw [hread]; exact Option.some_ne_none _)
    rw [hm, readObject_version hread]
    exact hle

theorem CacheEvent.version_iff (m : Metadata α) (e : CacheEvent) :
    (e.call.isRead = true → (e.run k type uuid m).2 = true →
        m.version ≤ (e.run k type uuid m).1.version) ↔ e.NotOlder k type uuid m := by
  obtain ⟨call, v, r⟩ := e
  cases call with
  | reload =>
    simp only [run, NotOlder, Reads, CacheCall.isRead, true_implies]
    exact reload_version_iff
  | revalidate lock =>
    simp only [run, NotOlder, Reads, CacheCall.isRead, true_implies]
    by_cases hinvalid : m.isInvalid = true
    · simp only [hinvalid, if_true, true_or, true_implies]
      exact reload_version_iff
    by_cases hchanged : nexusMetadataHasChanged m (r.answers k v type uuid) = true
    · simp only [hinvalid, hchanged, if_true, or_true, true_implies]
      exact reload_version_iff
    · simp [hinvalid, hchanged]
  | store ok now =>
    simp [NotOlder, Reads, CacheCall.isRead]

/-- Along every run against an adversarial datastore, the version of the cached
copy never decreases exactly when no read is answered with an older copy. -/
theorem versionsGrow_iff (m : Metadata α) (es : List CacheEvent) :
    VersionsGrow k type uuid m es ↔ NeverOlder k type uuid m es := by
  induction es generalizing m with
  | nil => exact Iff.rfl
  | cons e es ih => exact and_congr (e.version_iff m) (ih (e.run k type uuid m).1)

end Versions

/-! ### An older copy -/

/-- Objects that are their own bytes. -/
def rawObjects : ObjectCodec Bytes where
  create _ _ := []
  parse _ plaintext := some plaintext

/-- A policy store with the uuid 5, put twice. -/
def twoVersions : Vault where
  puts := [plainPut 5 2 [2] 22 32, plainPut 5 1 [1] 21 31]
  keys := by decide
  macs := by decide
  wraps := by decide

/-- The datastore reports a newer timestamp and replies with the first put. -/
def olderReply : CacheEvent where
  call := .revalidate none
  vault := twoVersions
  reply := ⟨some 8, some ((plainPut 5 1 [1] 21 31).buffer, 8), false⟩

/-- A policy store seen at version 2 is replaced by its version 1. -/
theorem olderReply_rolls_back :
    ¬ VersionsGrow rawObjects .policyStore 5 ⟨[2], 2, false, some 7⟩ [olderReply] := by
  have hversion : cryptoBufVersion (plainPut 5 1 [1] 21 31).buffer = 1 :=
    cryptoBufVersion_buffer (plainPut 5 1 [1] 21 31)
  have hget : nexusCryptoBufGet twoVersions 5 (plainPut 5 1 [1] 21 31).buffer
      = some ([1], 31) :=
    nexusCryptoBufGet_buffer (List.mem_cons_of_mem _ (List.mem_singleton_self _)) (by decide)
  have hread : readObject rawObjects twoVersions .policyStore 5 (plainPut 5 1 [1] 21 31).buffer
      ≠ none := by
    rw [readObject, hversion, if_neg (by decide), hget]
    exact Option.some_ne_none _
  intro h
  have hle := (olderReply.version_iff _).mp h.1 (.inr rfl) _ _ rfl hread
  rw [hversion] at hle
  exact absurd hle (by decide)

end Nexus
