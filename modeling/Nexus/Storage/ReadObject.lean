import Nexus.Metadata
import Nexus.Dirnode.Store
import Nexus.Storage.CryptoBuffer

/-!
# Reading metadata objects from an untrusted datastore

`__read_object` takes the version out of the buffer header before anything is
authenticated, and makes a new empty object when it is zero.  Otherwise the
buffer is decrypted and parsed.  `nexus_metadata_load`, `nexus_metadata_reload`
and `nexus_metadata_revalidate` are built on it.

The datastore is adversarial: a `Reply` is whatever bytes and timestamps it
chooses to give.  The objects of the volume are kept abstract, with the
constructor and the parser of each type.
-/

namespace Nexus

open Option

variable {α : Type}

/-- `nexus_metadata_type_t`. -/
inductive MetadataType where
  | supernode
  | userTable
  | dirnode
  | filenode
  | hardlinkTable
  | attributeStore
  | policyStore
  | userProfile
  | auditLog
  deriving DecidableEq, Repr

/-- The types that `__read_object` creates at version zero; it refuses the
others. -/
def MetadataType.creatable : MetadataType → Bool
  | .dirnode | .filenode | .attributeStore | .policyStore | .userProfile | .auditLog => true
  | .supernode | .userTable | .hardlinkTable => false

/-- The `_create` and `_from_crypto_buf` functions of the object types. -/
structure ObjectCodec (α : Type) where
  create : MetadataType → Uuid → α
  parse : MetadataType → Bytes → Option α

/-- `__read_object` of the buffer that the datastore returned: the object and its
version. -/
def readObject (k : ObjectCodec α) (v : Vault) (type : MetadataType) (uuid : Uuid)
    (external : Bytes) : Option (α × BitVec 32) :=
  if cryptoBufVersion external = 0 then
    if type.creatable then some (k.create type uuid, 0) else none
  else do
    let (plaintext, _) ← nexusCryptoBufGet v uuid external
    let object ← k.parse type plaintext
    some (object, cryptoBufVersion external)

theorem readObject_version {k : ObjectCodec α} {v : Vault} {type : MetadataType} {uuid : Uuid}
    {external : Bytes} {object : α} {version : BitVec 32}
    (h : readObject k v type uuid external = some (object, version)) :
    version = cryptoBufVersion external := by
  unfold readObject at h
  split at h
  next hzero =>
    split at h
    · rw [hzero]
      exact (Prod.mk.inj (Option.some.inj h)).2.symm
    · contradiction
  · simp only [bind_eq_bind, bind_eq_some_iff, Option.some.injEq,
      Prod.mk.injEq] at h
    obtain ⟨-, -, -, -, -, hversion⟩ := h
    exact hversion.symm

/-- What the datastore says about one object during one call. -/
structure Reply where
  /-- `ocall_buffer_stattime`. -/
  stattime : Option Nat
  /-- `ocall_buffer_get`: the buffer and its timestamp. -/
  buffer : Option (Bytes × Nat)
  /-- What the uninitialised local `has_changed` of the caller holds. -/
  uninit : Bool

/-- The reply as the metadata layer sees it. -/
def Reply.answers (k : ObjectCodec α) (v : Vault) (type : MetadataType) (uuid : Uuid)
    (r : Reply) : Answers α where
  stattime := r.stattime
  object := do
    let (external, timestamp) ← r.buffer
    let (object, version) ← readObject k v type uuid external
    some ⟨object, version.toNat, timestamp⟩
  uninit := r.uninit

/-! ## Authenticated loading -/

section Loading

variable (k : ObjectCodec α) (v : Vault) (created : Uuid → Prop)

/-- The uuid was created and nothing was ever put for it. -/
def NeverStored (uuid : Uuid) : Prop := created uuid ∧ ∀ p ∈ v.puts, p.uuid ≠ uuid

/-- The object that a load gave for the reply is what the enclave once stored, at
the version it was stored with, or the new object of a uuid that was never
stored. -/
def AuthenticObject (type : MetadataType) (uuid : Uuid) (r : Reply) (m : Metadata α) : Prop :=
  (m.object = k.create type uuid ∧ r.buffer.map Prod.fst = some [] ∧ NeverStored v created uuid) ∨
    ∃ p ∈ v.puts, p.uuid = uuid ∧ k.parse type p.plaintext = some m.object ∧
      m.version = p.version.toNat

/-- The reply does not make the enclave skip the authentication: the version in
the buffer is not zero, or the type is never created on a load, or the buffer is
empty and the uuid was never stored.  (Or the 32-bit version of a stored object
has wrapped around to zero and the object is as new.) -/
def Reply.Honest (type : MetadataType) (uuid : Uuid) (r : Reply) : Prop :=
  ∀ external timestamp, r.buffer = some (external, timestamp) →
    cryptoBufVersion external ≠ 0 ∨ type.creatable = false ∨
      (external = [] ∧ NeverStored v created uuid) ∨
      ∃ p ∈ v.puts, p.uuid = uuid ∧ p.version = 0 ∧
        k.parse type p.plaintext = some (k.create type uuid)

theorem nexusMetadataLoad_answers {type : MetadataType} {uuid : Uuid} {r : Reply} {m : Metadata α} :
    nexusMetadataLoad (r.answers k v type uuid) = some m ↔
      ∃ external timestamp object version, r.buffer = some (external, timestamp) ∧
        readObject k v type uuid external = some (object, version) ∧
        m = ⟨object, version.toNat, false, some timestamp⟩ := by
  simp only [nexusMetadataLoad, Reply.answers, bind_eq_bind, map_eq_some_iff,
    bind_eq_some_iff, Option.some.injEq]
  constructor
  · rintro ⟨_, ⟨⟨external, timestamp⟩, hbuffer, ⟨object, version⟩, hread, rfl⟩, rfl⟩
    exact ⟨external, timestamp, object, version, hbuffer, hread, rfl⟩
  · rintro ⟨external, timestamp, object, version, hbuffer, hread, rfl⟩
    exact ⟨_, ⟨(external, timestamp), hbuffer, (object, version), hread, rfl⟩, rfl⟩

theorem nexusMetadataReload_eq_load {m m' : Metadata α} {a : Answers α} :
    nexusMetadataReload m a = (m', true) ↔ nexusMetadataLoad a = some m' := by
  unfold nexusMetadataReload
  cases nexusMetadataLoad a <;> simp

/-- Whatever is decrypted was put for the uuid, at the version of the header. -/
theorem readObject_of_version {type : MetadataType} {uuid : Uuid} {external : Bytes} {object : α}
    {version : BitVec 32} (hversion : cryptoBufVersion external ≠ 0)
    (h : readObject k v type uuid external = some (object, version)) :
    ∃ p ∈ v.puts, p.uuid = uuid ∧ k.parse type p.plaintext = some object ∧
      version = p.version := by
  simp only [readObject, if_neg hversion, bind_eq_bind, bind_eq_some_iff,
    Option.some.injEq, Prod.mk.injEq] at h
  obtain ⟨⟨plaintext, mac⟩, hget, object', hparse, rfl, rfl⟩ := h
  obtain ⟨p, hp, huuid, rfl, -, rfl⟩ := nexusCryptoBufGet_sound hget
  exact ⟨p, hp, huuid, hparse, cryptoBufVersion_buffer p⟩

theorem load_authentic_iff (type : MetadataType) (uuid : Uuid) (r : Reply) :
    (∀ m, nexusMetadataLoad (r.answers k v type uuid) = some m →
        AuthenticObject k v created type uuid r m) ↔ r.Honest k v created type uuid := by
  simp only [nexusMetadataLoad_answers]
  constructor
  · intro h external timestamp hbuffer
    by_cases hversion : cryptoBufVersion external = 0
    · by_cases hcreatable : type.creatable = true
      · -- the object is created: the load must have had a right to do so
        have hread : readObject k v type uuid external = some (k.create type uuid, 0) := by
          rw [readObject, if_pos hversion, if_pos hcreatable]
        rcases h _ ⟨external, timestamp, _, _, hbuffer, hread, rfl⟩ with
          ⟨-, hempty, hnever⟩ | ⟨p, hp, huuid, hparse, hzero⟩
        · rw [hbuffer, map_some, Option.some.injEq] at hempty
          exact .inr (.inr (.inl ⟨hempty, hnever⟩))
        · have hzero' : p.version = 0 := BitVec.eq_of_toNat_eq hzero.symm
          exact .inr (.inr (.inr ⟨p, hp, huuid, hzero', hparse⟩))
      · exact .inr (.inl (by simpa using hcreatable))
    · exact .inl hversion
  · rintro h m ⟨external, timestamp, object, version, hbuffer, hread, rfl⟩
    by_cases hversion : cryptoBufVersion external = 0
    · rw [readObject, if_pos hversion] at hread
      split at hread
      next hcreatable =>
        cases hread
        rcases h external timestamp hbuffer with hne | hfalse | ⟨hempty, hnever⟩ | hwrapped
        · exact absurd hversion hne
        · simp [hfalse] at hcreatable
        · exact .inl ⟨rfl, by rw [hbuffer, hempty]; rfl, hnever⟩
        · obtain ⟨p, hp, huuid, hzero, hparse⟩ := hwrapped
          exact .inr ⟨p, hp, huuid, hparse, by rw [hzero]⟩
      · contradiction
    · obtain ⟨p, hp, huuid, hparse, rfl⟩ := readObject_of_version k v hversion hread
      exact .inr ⟨p, hp, huuid, hparse, rfl⟩

/-- Every successful load and reload gives an authentic object, whatever the
datastore replies, exactly when the reply does not make the enclave skip the
authentication. -/
theorem metadata_authentic_iff (type : MetadataType) (uuid : Uuid) (r : Reply) :
    ((∀ m, nexusMetadataLoad (r.answers k v type uuid) = some m →
        AuthenticObject k v created type uuid r m) ∧
      ∀ m m', nexusMetadataReload m (r.answers k v type uuid) = (m', true) →
        AuthenticObject k v created type uuid r m') ↔ r.Honest k v created type uuid := by
  rw [← load_authentic_iff]
  constructor
  · exact And.left
  · intro h
    refine ⟨h, fun m m' hreload => h m' ?_⟩
    exact nexusMetadataReload_eq_load.mp hreload

end Loading

/-! ### A buffer with a zero version -/

/-- A context whose key is wrapped as itself. -/
def plainCtx {n : Nat} (key : Key) (mac : Mac) (ciphertext : Bytes) (h : ciphertext.length = n) :
    CryptoCtx n where
  key := key
  mac := mac
  ekey := Codec.le gcm128WrappedKeySize key.toNat
  iv := List.replicate gcm128IvSize 0
  ciphertext := ciphertext
  ekeySize := Codec.length_le ..
  ivSize := List.length_replicate
  ciphertextSize := h

/-- A put whose ciphertext is the plaintext and whose key is wrapped as itself. -/
def plainPut (uuid : Uuid) (version : BitVec 32) (plaintext : Bytes) (key : Key) (mac : Mac) :
    Put where
  uuid := uuid
  version := version
  plaintext := plaintext
  ctx := plainCtx key mac plaintext rfl

/-- The vault with one put. -/
def onePut (p : Put) : Vault where
  puts := [p]
  keys := List.nodup_singleton _
  macs := List.nodup_singleton _
  wraps := List.nodup_singleton _

/-- Directories whose entries are all in the first bucket. -/
def smallDirnodes : ObjectCodec Dirnode where
  create _ uuid := dirnodeCreate 1 uuid 3
  parse _ plaintext := dirnodeFromBuffer (fun _ => none) plaintext

/-- The directory 5 with one file. -/
def oneFile : Dirnode :=
  (dirnodeAdd (dirnodeCreate 1 5 3) nameA .reg 10 11).1

/-- The directory was stored once. -/
def oneFileStored : Vault := onePut (plainPut 5 1 (dirnodeSerialize oneFile) 20 30)

/-- A header of zero bytes and nothing else. -/
def zeroReply : Reply where
  stattime := some 1
  buffer := some (List.replicate getHeaderLen 0, 1)
  uninit := false

/-- The datastore replies with a header of zero bytes, and the enclave takes the
directory for a new one. -/
theorem load_of_zeroReply :
    nexusMetadataLoad (zeroReply.answers smallDirnodes oneFileStored .dirnode 5)
        = some ⟨dirnodeCreate 1 5 3, 0, false, some 1⟩ ∧
      ¬ AuthenticObject smallDirnodes oneFileStored (fun _ => True) .dirnode 5 zeroReply
        ⟨dirnodeCreate 1 5 3, 0, false, some 1⟩ := by
  have hversion : cryptoBufVersion (List.replicate getHeaderLen 0) = 0 := by decide
  constructor
  · rw [nexusMetadataLoad_answers]
    exact ⟨_, _, _, 0, rfl, if_pos hversion, rfl⟩
  · rintro (⟨-, hempty, -⟩ | ⟨p, hp, -, -, hzero⟩)
    · exact absurd (Option.some.inj hempty) (by decide)
    · rw [List.mem_singleton.mp hp] at hzero
      cases hzero

end Nexus
