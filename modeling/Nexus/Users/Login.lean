import Nexus.Users.UserTable

/-!
# Logging into a volume

A login is two ecalls of `volume.c`.  `ecall_authentication_challenge` parses the
public key of the caller, unseals the volume key and draws a nonce.
`ecall_authentication_response` checks a signature over the nonce and the supernode
buffer, mounts the supernode, and looks the key up in the user table.

The state is in globals of `volume.c`, `vfs.c`, `main.c` and `volumekey.c`, which
keep their values between the calls and between logins.  The model keeps those that
the login reads or writes.  What the untrusted side and the helpers return comes with
the call: a result of a helper that can fail is an `Option` or a `Bool`.

`nexus_vfs_mount` and `nexus_vfs_deinit` also free the supernode of an earlier mount
and the metadata cache.  A mount after one that failed frees the supernode twice; the
abort that this can end in is left out.
-/

namespace Nexus.Users

/-- The cryptography of a login. -/
structure Crypto (Key Hash : Type) extends Pubkeys Key Hash where
  /-- What `nexus_hash_clear` leaves. -/
  zeroHash : Hash
  sha256 : Bytes → Bytes
  /-- `mbedtls_pk_verify`: the key, the digest and the signature. -/
  pkVerify : Key → Bytes → Bytes → Bool

/-- `struct nexus_supernode`: what a login reads of it. -/
structure Supernode where
  myUuid : Uuid
  usertableUuid : Uuid
  deriving DecidableEq

/-- The globals. -/
structure Enclave (Key Hash : Type) where
  /-- `user_pubkey_key`, `none` if its key is `NULL`. -/
  userPubkeyKey : Option Key
  userPubkeyHash : Hash
  authenticationNonce : Bytes
  globalVolumekey : Option (BitVec 128)
  globalSupernode : Option Supernode
  /-- `user_table_metadata`: the uuid of the metadata object, and the table. -/
  userTableMetadata : Option (Uuid × UserTable Hash)
  globalUserStruct : Option (User Hash)
  globalUserId : UInt64

/-- The arguments of a challenge and what its helpers return. -/
structure Challenge where
  userPubkey : Bytes
  /-- The key is allocated in `load_auth_pubkey`, and in `crypto_hash_pubkey`. -/
  parses : Bool
  hashes : Bool
  /-- `key_buffer_extract128`: the unsealed volume key. -/
  volumekey : Option (BitVec 128)
  nonce : Bytes

/-- `nexus_metadata_revalidate` of the cached user table. -/
inductive Revalidated (Hash : Type) where
  | failed
  | unchanged
  | reloaded (table : UserTable Hash)

/-- The arguments of a response and what its helpers return. -/
structure Response (Hash : Type) where
  /-- `nexus_crypto_buf_create`: the exterior of the supernode buffer. -/
  exterior : Option Bytes
  /-- `nexus_raw_buf_get` returns a buffer that is long enough. -/
  rawBuf : Bool
  signature : Bytes
  /-- `supernode_from_crypto_buf`, under the volume key. -/
  supernode : BitVec 128 → Option Supernode
  /-- `nexus_metadata_load` of the user table. -/
  loaded : Option (UserTable Hash)
  revalidated : Revalidated Hash
  /-- `abac_runtime_mount`. -/
  abacMounted : Bool

namespace Enclave

variable {Key Hash : Type} (crypto : Crypto Key Hash) (s : Enclave Key Hash)

/-- The globals of an enclave that was just started. -/
def init : Enclave Key Hash :=
  ⟨none, crypto.zeroHash, [], none, none, none, none, invalidUserId⟩

/-- `clear_auth_pubkey`. -/
def clearAuthPubkey : Enclave Key Hash :=
  if s.userPubkeyKey.isSome then
    { s with userPubkeyHash := crypto.zeroHash, userPubkeyKey := none }
  else s

@[simp]
theorem clearAuthPubkey_userPubkeyKey : (s.clearAuthPubkey crypto).userPubkeyKey = none := by
  unfold clearAuthPubkey
  split
  · rfl
  · next h => simpa using h

@[simp]
theorem clearAuthPubkey_globalVolumekey :
    (s.clearAuthPubkey crypto).globalVolumekey = s.globalVolumekey := by
  unfold clearAuthPubkey
  split <;> rfl

@[simp]
theorem clearAuthPubkey_globalSupernode :
    (s.clearAuthPubkey crypto).globalSupernode = s.globalSupernode := by
  unfold clearAuthPubkey
  split <;> rfl

@[simp]
theorem clearAuthPubkey_userTableMetadata :
    (s.clearAuthPubkey crypto).userTableMetadata = s.userTableMetadata := by
  unfold clearAuthPubkey
  split <;> rfl

@[simp]
theorem clearAuthPubkey_globalUserStruct :
    (s.clearAuthPubkey crypto).globalUserStruct = s.globalUserStruct := by
  unfold clearAuthPubkey
  split <;> rfl

@[simp]
theorem clearAuthPubkey_globalUserId :
    (s.clearAuthPubkey crypto).globalUserId = s.globalUserId := by
  unfold clearAuthPubkey
  split <;> rfl

/-- `load_auth_pubkey`: a key that was parsed stays when its hash fails. -/
def loadAuthPubkey (c : Challenge) : Enclave Key Hash × Bool :=
  match (if c.parses then crypto.keyFromStr c.userPubkey else none) with
  | none => ({ s with userPubkeyKey := none }, false)
  | some key =>
    match (if c.hashes then crypto.cryptoHashPubkey c.userPubkey else none) with
    | none => ({ s with userPubkeyKey := some key }, false)
    | some hash => ({ s with userPubkeyKey := some key, userPubkeyHash := hash }, true)

/-- `ecall_authentication_challenge`. -/
def authenticationChallenge (c : Challenge) : Enclave Key Hash × Bool :=
  let loaded := (s.clearAuthPubkey crypto).loadAuthPubkey crypto c
  if loaded.2 then
    match c.volumekey with
    | none => (loaded.1.clearAuthPubkey crypto, false)
    | some key =>
      ({ loaded.1 with globalVolumekey := some key, authenticationNonce := c.nonce }, true)
  else (loaded.1, false)

/-- The signature is that of the nonce and the supernode, under the loaded key. -/
def verifies (exterior : Bytes) (r : Response Hash) : Bool :=
  r.rawBuf && s.userPubkeyKey.any fun key =>
    crypto.pkVerify key (crypto.sha256 (s.authenticationNonce ++ exterior)) r.signature

/-- `nexus_vfs_mount`: no supernode can be read without a volume key. -/
def vfsMount (r : Response Hash) : Enclave Key Hash × Bool :=
  let supernode := s.globalVolumekey.bind r.supernode
  ({ s with globalSupernode := supernode }, supernode.isSome)

/-- `nexus_vfs_deinit`. -/
def vfsDeinit : Enclave Key Hash := { s with globalSupernode := none }

/-- `nexus_vfs_acquire_user_table`: a table that was loaded before is revalidated, and
its uuid is not looked at. -/
def acquireUserTable (r : Response Hash) : Enclave Key Hash × Option (UserTable Hash) :=
  match s.userTableMetadata with
  | none =>
    match s.globalSupernode, r.loaded with
    | some supernode, some table =>
      ({ s with userTableMetadata := some (supernode.usertableUuid, table) }, some table)
    | _, _ => (s, none)
  | some (uuid, table) =>
    match r.revalidated with
    | .failed => (s, none)
    | .unchanged => (s, some table)
    | .reloaded table => ({ s with userTableMetadata := some (uuid, table) }, some table)

variable [DecidableEq Hash]

/-- `nexus_verfiy_pubkey`. -/
def verfiyPubkey (r : Response Hash) : Enclave Key Hash × Bool :=
  let acquired := s.acquireUserTable r
  match acquired.2 with
  | none => (acquired.1, false)
  | some table =>
    match table.findPubkeyHash acquired.1.userPubkeyHash with
    | none => ({ acquired.1 with globalUserStruct := none }, false)
    | some user =>
      ({ acquired.1 with globalUserStruct := some user, globalUserId := user.userId }, true)

/-- The supernode and the user membership are verified. -/
def mountVolume (r : Response Hash) : Enclave Key Hash × Bool :=
  let mounted := s.vfsMount r
  if mounted.2 then
    let known := mounted.1.verfiyPubkey r
    if known.2 && r.abacMounted then known else (known.1.vfsDeinit, false)
  else mounted

/-- `ecall_authentication_response`. -/
def authenticationResponse (r : Response Hash) : Enclave Key Hash × Bool :=
  match r.exterior with
  | none => (s, false)
  | some exterior =>
    let logged := if s.verifies crypto exterior r then s.mountVolume r else (s, false)
    if logged.2 then (logged.1.clearAuthPubkey crypto, true)
    else (({ logged.1 with globalVolumekey := none } : Enclave Key Hash).clearAuthPubkey crypto,
      false)

end Enclave

end Nexus.Users
