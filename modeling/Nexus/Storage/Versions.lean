import Nexus.Lib.Runs
import Nexus.Storage.BufferLayer
import Nexus.Storage.ReadObject

/-!
# The version counters

The version of an object is counted twice: in the header that
`nexus_crypto_buf_put` writes, and in `struct nexus_metadata`.  Both are
incremented by a store that succeeds.  The put of a file with other writers
succeeds without being written, and then they differ.

A `Client` is the cached copy of one object over the buffer layer and the
datastore.  The contents of a directory are partly in other objects, its buckets:
`parts` stands for them, and is changed by stores of directories only.
-/

namespace Nexus

open Option

variable {α W : Type}

/-- The functions of the object types: those that depend on the separately stored
parts, and the plaintext that a store writes. -/
structure PartsCodec (α W : Type) where
  codec : W → ObjectCodec α
  serialize : MetadataType → α → Bytes

/-- `struct nexus_metadata`. -/
structure NexusMetadata (α : Type) where
  object : α
  version : BitVec 32
  flags : IoFlags
  isDirty : Bool
  isInvalid : Bool
  isLocked : Bool
  deriving DecidableEq, Repr

/-- One client of one object. -/
structure Client (α W : Type) where
  metadata : Option (NexusMetadata α)
  buffer : BufferState
  parts : W
  /-- The plaintext of the last put that was written. -/
  plaintext : Option Bytes
  deriving DecidableEq, Repr

/-- `nexus_metadata_from_object`. -/
def nexusMetadataFromObject (object : α) (flags : IoFlags) (version : BitVec 32) :
    NexusMetadata α where
  object := object
  version := version
  flags := flags
  isDirty := false
  isInvalid := false
  isLocked := nexusIoInLockMode flags

/-- What a store draws and what its ocalls answer. -/
structure SaveOutcome (W : Type) where
  /-- The crypto context of the put. -/
  ctx : (n : Nat) → CryptoCtx n
  /-- The separately stored parts when the put is reached, or the store has failed. -/
  parts : W
  /-- The store gets as far as `nexus_crypto_buf_put` of the object. -/
  reached : Bool
  heap : Bool
  put : OcallResult
  now : Nat

/-- A call on the object, with how its ocalls end. -/
inductive ClientCall (α W : Type) where
  | load (flags : IoFlags) (r : GetResult)
  | create (r : OcallResult)
  | reload (flags : IoFlags) (r : GetResult)
  | revalidate (flags : IoFlags) (stattime : Option Nat) (uninit : Bool) (r : GetResult)
      (lock : OcallResult)
  | modify (object : α)
  | store (o : SaveOutcome W)
  | unlock (r : OcallResult)

section Calls

variable (k : PartsCodec α W) (v : Vault) (type : MetadataType) (uuid : Uuid)

/-- `__read_object`. -/
def Client.readObject (flags : IoFlags) (r : GetResult) (c : Client α W) :
    Client α W × Option (α × BitVec 32) :=
  let (buffer, external) := bufferLayerGet flags r c.buffer
  ({ c with buffer }, external.bind (Nexus.readObject (k.codec c.parts) v type uuid))

/-- `nexus_metadata_load`, and `nexus_metadata_reload` of a cached copy. -/
def Client.load (flags : IoFlags) (r : GetResult) (c : Client α W) : Client α W × Bool :=
  match c.readObject k v type uuid flags r with
  | (c, none) => (c, false)
  | (c, some (object, version)) =>
    ({ c with metadata := some (nexusMetadataFromObject object flags version) }, true)

/-- `nexus_metadata_create`. -/
def Client.create (r : OcallResult) (c : Client α W) : Client α W × Bool :=
  match bufferLayerLock nexusFcreate r c.buffer with
  | (buffer, false) => ({ c with buffer }, false)
  | (buffer, true) =>
    ({ c with
        buffer
        metadata := some (nexusMetadataFromObject ((k.codec c.parts).create type uuid)
          nexusFcreate 0) }, true)

/-- `buffer_layer_revalidate`: `*should_reload` after the call. -/
def Client.hasChanged (stattime : Option Nat) (uninit : Bool) (c : Client α W) : Bool :=
  match c.buffer.metaBuf with
  | none => true
  | some b =>
    match stattime with
    | none => uninit
    | some t => decide (b.timestamp < t)

/-- `nexus_metadata_lock`. -/
def Client.lock (flags : IoFlags) (r : OcallResult) (m : NexusMetadata α) (c : Client α W) :
    Client α W × Bool :=
  match bufferLayerLock flags r c.buffer with
  | (buffer, false) => ({ c with buffer }, false)
  | (buffer, true) => ({ c with buffer, metadata := some { m with isLocked := true } }, true)

/-- `nexus_metadata_revalidate`. -/
def Client.revalidate (flags : IoFlags) (stattime : Option Nat) (uninit : Bool) (r : GetResult)
    (lock : OcallResult) (m : NexusMetadata α) (c : Client α W) : Client α W × Bool :=
  if m.isInvalid then c.load k v type uuid flags r
  else if c.hasChanged stattime uninit then c.load k v type uuid flags r
  else if nexusIoInLockMode flags then c.lock flags lock m
  else (c, true)

/-- The store has something to write. -/
def NexusMetadata.mustStore (m : NexusMetadata α) : Bool := m.isDirty || m.flags.fcreate

/-- The put of a store. -/
def SaveOutcome.toPut (o : SaveOutcome W) (m : NexusMetadata α) : Put :=
  nexusCryptoBufPut uuid m.version (k.serialize type m.object) (o.ctx _)

/-- `nexus_metadata_store` after a failure: `buffer_layer_lock_status` says whether
the file is still locked. -/
def NexusMetadata.storeFailed (m : NexusMetadata α) (buffer : BufferState) : NexusMetadata α :=
  { m with isInvalid := true, isLocked := buffer.inWriteMode }

/-- `nexus_metadata_store`.  Only directories have separately stored parts. -/
def Client.store (o : SaveOutcome W) (m : NexusMetadata α) (c : Client α W) :
    Client α W × Bool :=
  if !m.mustStore then (c, true)
  else
    let parts := if type = .dirnode then o.parts else c.parts
    if !o.reached then
      ({ c with parts, metadata := some (m.storeFailed c.buffer) }, false)
    else
      match bufferLayerAllocPut (o.toPut k type uuid m).buffer o.heap o.put o.now c.buffer with
      | (buffer, false) =>
        ({ c with buffer, parts, metadata := some (m.storeFailed buffer) }, false)
      | (buffer, true) =>
        ({  buffer, parts
            metadata := some
              { m with isDirty := false, version := m.version + 1, isLocked := false }
            plaintext :=
              -- a put that is deferred leaves the datastore as it was
              if c.buffer.writers ≤ 1 then some (k.serialize type m.object) else c.plaintext },
          true)

/-- The client after the call, and whether it succeeded.  Without a copy only a
load and a create do anything. -/
def Client.run (c : Client α W) : ClientCall α W → Client α W × Bool
  | .load flags r => c.load k v type uuid flags r
  | .create r => c.create k type uuid r
  | .reload flags r =>
    match c.metadata with
    | none => (c, false)
    | some _ => c.load k v type uuid flags r
  | .revalidate flags stattime uninit r lock =>
    match c.metadata with
    | none => (c, false)
    | some m => c.revalidate k v type uuid flags stattime uninit r lock m
  | .modify object =>
    ({ c with metadata := c.metadata.map fun m => { m with object, isDirty := true } }, true)
  | .store o =>
    match c.metadata with
    | none => (c, false)
    | some m => c.store k type uuid o m
  | .unlock r =>
    match c.metadata with
    | none => (c, false)
    | some m =>
      if m.isLocked then
        ({ c with
            buffer := (bufferLayerUnlock r c.buffer).1
            metadata := some { m with isLocked := false } }, true)
      else (c, true)

end Calls

/-! ## Agreement -/

section Agreement

variable (k : PartsCodec α W) (v : Vault) (type : MetadataType) (uuid : Uuid)

/-- The object that the datastore holds. -/
def Client.storedObject (c : Client α W) : Option α :=
  c.plaintext.bind ((k.codec c.parts).parse type)

/-- The version in the header that the datastore holds. -/
def Client.storedVersion (c : Client α W) : BitVec 32 := cryptoBufVersion c.buffer.remote.bytes

/-- A revalidation that can read the datastore gives the object, at the version. -/
def Client.Reloads (c : Client α W) (m : NexusMetadata α) (object : α) (version : BitVec 32) :
    Prop :=
  ∀ flags stattime uninit lock,
    (c.revalidate k v type uuid flags stattime uninit .ok lock m).2 = true ∧
      (c.revalidate k v type uuid flags stattime uninit .ok lock m).1.metadata =
        some (nexusMetadataFromObject object flags version)

/-- A store that writes leaves both counters at the next version.  A store that
fails leaves them as they were, and the next revalidation reloads the object that
was stored before. -/
def Client.StoreAgrees (c : Client α W) : ClientCall α W → Prop
  | .store o => ∀ m, c.metadata = some m → m.mustStore = true →
    ((c.store k type uuid o m).2 = true →
      ∃ m', (c.store k type uuid o m).1.metadata = some m' ∧ m'.version = m.version + 1 ∧
        (c.store k type uuid o m).1.storedVersion = m'.version ∧
        (c.store k type uuid o m).1.storedVersion = c.storedVersion + 1) ∧
    ((c.store k type uuid o m).2 = false →
      ∃ m', (c.store k type uuid o m).1.metadata = some m' ∧ m'.version = m.version ∧
        (c.store k type uuid o m).1.storedVersion = c.storedVersion ∧
        ∀ object, c.storedObject k type = some object →
          (c.store k type uuid o m).1.Reloads k v type uuid m' object c.storedVersion)
  | .load .. | .create _ | .reload .. | .revalidate .. | .modify _ | .unlock _ => True

/-- The store goes through. -/
def SaveOutcome.Succeeds (o : SaveOutcome W) (c : Client α W) : Prop :=
  o.reached = true ∧ c.buffer.inWriteMode = true ∧ o.heap = true ∧ o.put = .ok

/-- The call is one that keeps the counters together.

* An object is created for a new uuid.
* A store is that of the only writer, its version does not wrap around, the object
  has less than 4 GiB, and it does not fail after it has changed a separately stored
  part. -/
def Client.Single (c : Client α W) : ClientCall α W → Prop
  | .create _ => c.buffer.remote.bytes = []
  | .store o => ∀ m, c.metadata = some m → m.mustStore = true →
    c.buffer.writers ≤ 1 ∧ m.version + 1 ≠ 0 ∧ (k.serialize type m.object).length < 2 ^ 32 ∧
      (type = .dirnode → o.parts = c.parts ∨ o.Succeeds c)
  | .load .. | .reload .. | .revalidate .. | .modify _ | .unlock _ => True

/-- The vault records the put of the call. -/
def Client.Recorded (c : Client α W) : ClientCall α W → Prop
  | .store o => ∀ m, c.metadata = some m → o.toPut k type uuid m ∈ v.puts
  | .load .. | .create _ | .reload .. | .revalidate .. | .modify _ | .unlock _ => True

/-- The bytes are those of the put of the plaintext, or there are none. -/
def StoredAs : Option Bytes → Bytes → Prop
  | none, bytes => bytes = []
  | some plaintext, bytes => ∃ p ∈ v.puts, p.uuid = uuid ∧ p.plaintext = plaintext ∧
    plaintext.length < 2 ^ 32 ∧ p.version ≠ 0 ∧ bytes = p.buffer

/-- Nothing is deferred, and the cached version is the stored one. -/
structure ClientInv (c : Client α W) : Prop where
  clean : c.buffer.isDirty = false
  version : ∀ m, c.metadata = some m → m.version = c.storedVersion
  stored : StoredAs v uuid c.plaintext c.buffer.remote.bytes

variable {k v type uuid}

variable {c : Client α W}

theorem ClientInv.of_keeps {c' : Client α W} (h : ClientInv v uuid c)
    (hkeeps : c.buffer.Keeps c'.buffer) (hplaintext : c'.plaintext = c.plaintext)
    (hversion : ∀ m, c'.metadata = some m → m.version = c.storedVersion) :
    ClientInv v uuid c' where
  clean := hkeeps.dirty.trans h.clean
  version m hm := by rw [hversion m hm, Client.storedVersion, Client.storedVersion, hkeeps.bytes]
  stored := by
    rw [hplaintext, hkeeps.bytes]
    exact h.stored

variable (k v type uuid) in
theorem Client.load_cases (c : Client α W) (flags : IoFlags) (r : GetResult) :
    c.load k v type uuid flags r
        = ({ c with buffer := (bufferLayerGet flags r c.buffer).1 }, false) ∨
      ∃ external object version, (bufferLayerGet flags r c.buffer).2 = some external ∧
        Nexus.readObject (k.codec c.parts) v type uuid external = some (object, version) ∧
        c.load k v type uuid flags r =
          ({ c with
              buffer := (bufferLayerGet flags r c.buffer).1
              metadata := some (nexusMetadataFromObject object flags version) }, true) := by
  simp only [Client.load, Client.readObject]
  cases hget : (bufferLayerGet flags r c.buffer).2 with
  | none => exact .inl rfl
  | some external =>
    cases hread : Nexus.readObject (k.codec c.parts) v type uuid external with
    | none =>
      left
      simp only [bind_some, hread]
    | some o =>
      right
      refine ⟨external, o.1, o.2, rfl, hread, ?_⟩
      simp only [bind_some, hread]

theorem Client.load_inv (h : ClientInv v uuid c) (flags : IoFlags) (r : GetResult) :
    ClientInv v uuid (c.load k v type uuid flags r).1 := by
  have hkeeps := BufferState.get_keeps (s := c.buffer) flags r
  rcases c.load_cases k v type uuid flags r with
    hload | ⟨external, object, version, hget, hread, hload⟩
  · rw [hload]
    exact h.of_keeps hkeeps rfl h.version
  · rw [hload]
    refine h.of_keeps hkeeps rfl (fun m hm => ?_)
    cases hm
    rw [Client.storedVersion, ← BufferState.get_of_clean h.clean flags hget]
    exact readObject_version hread

theorem Client.create_inv (h : ClientInv v uuid c) (r : OcallResult)
    (hnew : c.buffer.remote.bytes = []) : ClientInv v uuid (c.create k type uuid r).1 := by
  have hkeeps := BufferState.lock_keeps (s := c.buffer) nexusFcreate r
  unfold Client.create
  split <;> rename_i hlock <;> rw [hlock] at hkeeps
  · exact h.of_keeps hkeeps rfl h.version
  · refine h.of_keeps hkeeps rfl (fun m hm => ?_)
    cases hm
    rw [Client.storedVersion, hnew]
    rfl

variable {m : NexusMetadata α}

theorem Client.lock_inv (h : ClientInv v uuid c) (hm : c.metadata = some m) (flags : IoFlags)
    (r : OcallResult) :
    ClientInv v uuid (c.lock flags r m).1 := by
  have hkeeps := BufferState.lock_keeps (s := c.buffer) flags r
  unfold Client.lock
  split <;> rename_i hlock <;> rw [hlock] at hkeeps
  · exact h.of_keeps hkeeps rfl h.version
  · refine h.of_keeps hkeeps rfl (fun m' hm' => ?_)
    cases hm'
    exact h.version m hm

theorem Client.revalidate_inv (h : ClientInv v uuid c) (hm : c.metadata = some m)
    (flags : IoFlags) (stattime : Option Nat) (uninit : Bool) (r : GetResult) (lock : OcallResult) :
    ClientInv v uuid (c.revalidate k v type uuid flags stattime uninit r lock m).1 := by
  unfold Client.revalidate
  split
  · exact Client.load_inv h flags r
  split
  · exact Client.load_inv h flags r
  split
  · exact Client.lock_inv h hm flags lock
  · exact h

/-- The separately stored parts after a store. -/
def SaveOutcome.partsAfter (o : SaveOutcome W) (type : MetadataType) (c : Client α W) : W :=
  if type = .dirnode then o.parts else c.parts

variable (k type uuid) in
theorem Client.store_cases (o : SaveOutcome W) (hmust : m.mustStore = true)
    (hw : c.buffer.writers ≤ 1) :
    (¬ o.Succeeds c ∧ ∃ buffer, c.buffer.Keeps buffer ∧
      c.store k type uuid o m =
        ({ c with
            buffer
            parts := o.partsAfter type c
            metadata := some (m.storeFailed buffer) }, false)) ∨
    ∃ buffer, buffer.isDirty = c.buffer.isDirty ∧
      buffer.remote.bytes = (o.toPut k type uuid m).buffer ∧
      c.store k type uuid o m =
        ({  buffer
            parts := o.partsAfter type c
            metadata := some
              { m with isDirty := false, version := m.version + 1, isLocked := false }
            plaintext := some (k.serialize type m.object) }, true) := by
  simp only [Client.store, hmust, SaveOutcome.partsAfter]
  cases hreached : o.reached with
  | false =>
    left
    refine ⟨fun h => ?_, c.buffer, .refl, rfl⟩
    have := h.1
    rw [hreached] at this
    contradiction
  | true =>
    have hbytes := BufferState.allocPut_of_writers hw (o.toPut k type uuid m).buffer o.heap o.put
      o.now
    have hok := BufferState.allocPut_ok_iff (s := c.buffer) (o.toPut k type uuid m).buffer o.heap
      o.put o.now
    rcases hput : bufferLayerAllocPut (o.toPut k type uuid m).buffer o.heap o.put o.now c.buffer
      with ⟨buffer, ok⟩
    rw [hput] at hbytes hok
    cases ok with
    | false =>
      left
      refine ⟨fun h => ?_, buffer, ⟨hbytes.2, hbytes.1⟩, rfl⟩
      exact absurd (hok.mpr ⟨h.2.1, h.2.2.1, .inr h.2.2.2⟩) Bool.false_ne_true
    | true =>
      right
      refine ⟨buffer, hbytes.1, hbytes.2, ?_⟩
      simp only [Bool.not_true, Bool.false_eq_true, if_false, if_pos hw]

theorem readObject_of_storedAs {codec : ObjectCodec α} {plaintext bytes : Bytes} {object : α}
    (h : StoredAs v uuid (some plaintext) bytes) (hparse : codec.parse type plaintext = some object) :
    readObject codec v type uuid bytes = some (object, cryptoBufVersion bytes) := by
  obtain ⟨p, hp, rfl, rfl, hsize, hversion, rfl⟩ := h
  have hnonzero : cryptoBufVersion p.buffer ≠ 0 := by
    rw [cryptoBufVersion_buffer]
    exact hversion
  simp only [readObject, if_neg hnonzero, nexusCryptoBufGet_buffer hp hsize, bind_eq_bind,
    bind_some, hparse]

theorem Client.reloads_of_invalid {object : α} (hinvalid : m.isInvalid = true)
    (hclean : c.buffer.isDirty = false)
    (hstored : StoredAs v uuid c.plaintext c.buffer.remote.bytes)
    (hobject : c.storedObject k type = some object) :
    c.Reloads k v type uuid m object c.storedVersion := by
  intro flags stattime uninit lock
  obtain ⟨plaintext, hplaintext, hparse⟩ := bind_eq_some_iff.mp hobject
  rw [hplaintext] at hstored
  have hread := readObject_of_storedAs hstored hparse
  have hget : (bufferLayerGet flags .ok c.buffer).2 = some c.buffer.remote.bytes := by
    rw [BufferState.get_eq, if_neg (by simp [hclean])]
  have hload : c.load k v type uuid flags .ok =
      ({ c with
          buffer := (bufferLayerGet flags .ok c.buffer).1
          metadata := some (nexusMetadataFromObject object flags c.storedVersion) }, true) := by
    simp only [Client.load, Client.readObject, hget, bind_some, hread]
    rfl
  rw [Client.revalidate, if_pos hinvalid, hload]
  exact ⟨rfl, rfl⟩

theorem Client.store_inv (h : ClientInv v uuid c) (hm : c.metadata = some m) {o : SaveOutcome W}
    (hsingle : c.Single k type (.store o)) (hrecorded : c.Recorded k v type uuid (.store o)) :
    ClientInv v uuid (c.store k type uuid o m).1 := by
  cases hmust : m.mustStore with
  | false =>
    rw [Client.store, hmust]
    exact h
  | true =>
    obtain ⟨hw, hwrap, hsize, -⟩ := hsingle m hm hmust
    rcases Client.store_cases k type uuid o hmust hw with
      ⟨-, buffer, hkeeps, hstore⟩ | ⟨buffer, hdirty, hbytes, hstore⟩
    · rw [hstore]
      refine h.of_keeps hkeeps rfl (fun m' hm' => ?_)
      cases hm'
      exact h.version m hm
    · rw [hstore]
      have hput : cryptoBufVersion buffer.remote.bytes = m.version + 1 := by
        rw [hbytes, cryptoBufVersion_buffer]
        rfl
      refine ⟨hdirty.trans h.clean, fun m' hm' => ?_, ?_⟩
      · cases hm'
        exact hput.symm
      · exact ⟨_, hrecorded m hm, rfl, rfl, hsize, hwrap, hbytes⟩

theorem Client.store_agrees (h : ClientInv v uuid c) {o : SaveOutcome W}
    (hsingle : c.Single k type (.store o)) : c.StoreAgrees k v type uuid (.store o) := by
  intro m hm hmust
  obtain ⟨hw, -, -, hparts⟩ := hsingle m hm hmust
  have hversion := h.version m hm
  rcases Client.store_cases k type uuid o hmust hw with
    ⟨hfails, buffer, hkeeps, hstore⟩ | ⟨buffer, hdirty, hbytes, hstore⟩
  · rw [hstore]
    refine ⟨nofun, fun _ => ?_⟩
    -- a store that fails has not changed the separately stored parts
    have hsame : o.partsAfter type c = c.parts := by
      unfold SaveOutcome.partsAfter
      split
      next hdirnode =>
        exact (hparts hdirnode).resolve_right hfails
      · rfl
    have hbytes : cryptoBufVersion buffer.remote.bytes = c.storedVersion :=
      congrArg cryptoBufVersion hkeeps.bytes
    refine ⟨m.storeFailed buffer, rfl, rfl, hbytes, fun object hobject => ?_⟩
    rw [← hbytes]
    refine Client.reloads_of_invalid rfl (hkeeps.dirty.trans h.clean) ?_ ?_
    · rw [hkeeps.bytes]
      exact h.stored
    · rw [Client.storedObject, hsame]
      exact hobject
  · rw [hstore]
    refine ⟨fun _ => ?_, fun hok => absurd hok.symm Bool.false_ne_true⟩
    have hput : cryptoBufVersion buffer.remote.bytes = m.version + 1 := by
      rw [hbytes, cryptoBufVersion_buffer]
      rfl
    exact ⟨_, rfl, rfl, hput, by rw [← hversion]; exact hput⟩

variable (k v type uuid) in
/-- The client after the call. -/
def Client.step (c : Client α W) (call : ClientCall α W) : Client α W :=
  (c.run k v type uuid call).1

section

variable (c : Client α W) (call : ClientCall α W) (h : ClientInv v uuid c)
  (hcall : c.Single k type call ∧ c.Recorded k v type uuid call)
include h hcall

theorem ClientInv.step : ClientInv v uuid (c.step k v type uuid call) := by
  obtain ⟨hsingle, hrecorded⟩ := hcall
  cases call with
  | load flags r => exact Client.load_inv h flags r
  | create r => exact Client.create_inv h r hsingle
  | modify object =>
    refine h.of_keeps .refl rfl (fun m hm => ?_)
    obtain ⟨m', hm', rfl⟩ := map_eq_some_iff.mp hm
    exact h.version m' hm'
  | reload flags r =>
    simp only [Client.step, Client.run]
    split
    · exact h
    · exact Client.load_inv h flags r
  | revalidate flags stattime uninit r lock =>
    simp only [Client.step, Client.run]
    split
    · exact h
    next m hm =>
      exact Client.revalidate_inv h hm flags stattime uninit r lock
  | store o =>
    simp only [Client.step, Client.run]
    split
    · exact h
    next m hm =>
      exact Client.store_inv h hm hsingle hrecorded
  | unlock r =>
    simp only [Client.step, Client.run]
    split
    · exact h
    next m hm =>
      split
      · refine h.of_keeps (BufferState.unlock_keeps r) rfl (fun m' hm' => ?_)
        cases hm'
        exact h.version m hm
      · exact h

theorem ClientInv.storeAgrees : c.StoreAgrees k v type uuid call := by
  cases call with
  | store o => exact Client.store_agrees h hcall.1
  | load | create | modify | reload | revalidate | unlock => trivial

end

/-- A client that has not loaded the object yet. -/
def Client.closed (bytes : Bytes) (time : Nat) (parts : W) (plaintext : Option Bytes) :
    Client α W :=
  ⟨none, BufferState.closed bytes time, parts, plaintext⟩

/-- In every run of one client whose stores are those of the only writer, every
store keeps the counters together. -/
theorem versions_agree (bytes : Bytes) (time : Nat) (parts : W) (plaintext : Option Bytes)
    (hstored : StoredAs v uuid plaintext bytes) (calls : List (ClientCall α W))
    (h : Runs.Meets (Client.step k v type uuid)
      (fun c call => c.Single k type call ∧ c.Recorded k v type uuid call)
      (Client.closed bytes time parts plaintext) calls) :
    Runs.Meets (Client.step k v type uuid) (Client.StoreAgrees k v type uuid)
      (Client.closed bytes time parts plaintext) calls := by
  refine Runs.meets_of_meets ClientInv.step ClientInv.storeAgrees ?_ h
  exact ⟨rfl, fun m hm => absurd hm.symm (some_ne_none m), hstored⟩

end Agreement

/-! ### Runs of one client -/

/-- A context whose ciphertext is zero bytes. -/
def zeroCtx (key : Key) (mac : Mac) (n : Nat) : CryptoCtx n :=
  plainCtx key mac (List.replicate n 0) List.length_replicate

/-- Objects that are their own bytes and have no other parts. -/
def bytesCodec : PartsCodec Bytes Unit where
  codec _ := { create := fun _ _ => [], parse := fun _ plaintext => some plaintext }
  serialize _ object := object

/-- The object [1] of the uuid 5, stored at version 1. -/
def firstPut : Put := nexusCryptoBufPut 5 0 [1] (zeroCtx 21 31 1)

/-- A store that goes as far as its put. -/
def saveOutcome (key : Key) (mac : Mac) (put : OcallResult) : SaveOutcome Unit :=
  ⟨zeroCtx key mac, (), true, true, put, 2⟩

/-- The puts of the runs below. -/
def editPuts : Vault where
  puts := [firstPut, nexusCryptoBufPut 5 1 [2] (zeroCtx 22 32 1),
    nexusCryptoBufPut 5 2 [3] (zeroCtx 23 33 1)]
  keys := by decide
  macs := by decide
  wraps := by decide

/-- The client before it loads the object. -/
def editor : Client Bytes Unit := .closed firstPut.buffer 1 () (some [1])

/-- A store that is written, and one that fails. -/
def twoStores : List (ClientCall Bytes Unit) :=
  [.load nexusFrdwr .ok, .modify [2], .store (saveOutcome 22 32 .ok),
    .revalidate nexusFrdwr (some 1) false .ok .ok, .modify [3],
    .store (saveOutcome 23 33 .error)]

/-- The client after the first calls. -/
def editorAfter (n : Nat) : Client Bytes Unit :=
  (twoStores.take n).foldl (Client.step bytesCodec editPuts .policyStore 5) editor

theorem twoStores_evaluated :
    (editorAfter 2).metadata = some ⟨[2], 1, nexusFrdwr, true, false, true⟩ ∧
      (editorAfter 2).buffer.writers ≤ 1 ∧
      (editorAfter 5).metadata = some ⟨[3], 2, nexusFrdwr, true, false, true⟩ ∧
      (editorAfter 5).buffer.writers ≤ 1 := by
  decide +kernel

theorem twoStores_single : Runs.Meets (Client.step bytesCodec editPuts .policyStore 5)
    (fun c call => c.Single bytesCodec .policyStore call ∧
      c.Recorded bytesCodec editPuts .policyStore 5 call) editor twoStores := by
  obtain ⟨hfirst, hfirstWriters, hsecond, hsecondWriters⟩ := twoStores_evaluated
  refine ⟨⟨trivial, trivial⟩, ⟨trivial, trivial⟩, ⟨?_, ?_⟩, ⟨trivial, trivial⟩,
    ⟨trivial, trivial⟩, ⟨?_, ?_⟩, trivial⟩
  · intro m hm _
    cases hfirst.symm.trans hm
    exact ⟨hfirstWriters, by decide, by decide, nofun⟩
  · intro m hm
    cases hfirst.symm.trans hm
    exact List.mem_cons_of_mem _ List.mem_cons_self
  · intro m hm _
    cases hsecond.symm.trans hm
    exact ⟨hsecondWriters, by decide, by decide, nofun⟩
  · intro m hm
    cases hsecond.symm.trans hm
    exact List.mem_cons_of_mem _ (List.mem_cons_of_mem _ List.mem_cons_self)

theorem firstPut_stored : StoredAs editPuts 5 (some [1]) firstPut.buffer :=
  ⟨firstPut, List.mem_cons_self, rfl, rfl, by decide, by decide, rfl⟩

theorem twoStores_agree :
    Runs.Meets (Client.step bytesCodec editPuts .policyStore 5)
      (Client.StoreAgrees bytesCodec editPuts .policyStore 5) editor twoStores :=
  versions_agree firstPut.buffer 1 () (some [1]) firstPut_stored twoStores twoStores_single

/-- The object is locked a second time before the store. -/
def lockedTwice : List (ClientCall Bytes Unit) :=
  [.load nexusFrdwr .ok, .revalidate nexusFrdwr (some 1) false .ok .ok, .modify [2],
    .store (saveOutcome 22 32 .ok)]

/-- The client at the store. -/
def lockedTwiceStore : Client Bytes Unit :=
  (lockedTwice.take 3).foldl (Client.step bytesCodec editPuts .policyStore 5) editor

theorem lockedTwice_evaluated :
    let m : NexusMetadata Bytes := ⟨[2], 1, nexusFrdwr, true, false, true⟩
    let after := lockedTwiceStore.store bytesCodec .policyStore 5 (saveOutcome 22 32 .ok) m
    lockedTwiceStore.metadata = some m ∧ after.2 = true ∧ after.1.storedVersion = 1 := by
  decide +kernel

/-- The store returns 0 and the cached version is 2, but the datastore still holds
version 1. -/
theorem lockedTwice_not_agree :
    ¬ Runs.Meets (Client.step bytesCodec editPuts .policyStore 5)
      (Client.StoreAgrees bytesCodec editPuts .policyStore 5) editor lockedTwice := by
  intro h
  obtain ⟨hm, hok, hversion⟩ := lockedTwice_evaluated
  have hstore : lockedTwiceStore.StoreAgrees bytesCodec editPuts .policyStore 5
      (.store (saveOutcome 22 32 .ok)) := h.2.2.2.1
  obtain ⟨m', -, hnext, hstored, -⟩ := (hstore _ hm rfl).1 hok
  rw [hversion, hnext] at hstored
  cases hstored

end Nexus
