import Mathlib.Logic.Function.Basic
import Nexus.Basic
import Nexus.Lib.Codec

/-!
# The user table

`user.c` keeps who may log into a volume: the owner, and a list of users.  An
entry names its public key by a hash.  `nexus_usertable_set_owner_pubkey` and
`__nexus_usertable_add` hash the text they are given; `crypto_hash_pubkey`, which
looks entries up, parses the text first and hashes what the parsed key is written
as.

The hash is ideal: different texts have different hashes.  Parsing and writing
keys is left to the library behind `nexus_key.c`, and may fail.
-/

namespace Nexus.Users

/-- Public keys as `nexus_key.c` and `nexus_hash.c` handle them. -/
structure Pubkeys (Key Hash : Type) where
  /-- `__nexus_key_from_str` for `NEXUS_MBEDTLS_PUB_KEY`. -/
  keyFromStr : Bytes → Option Key
  /-- `nexus_key_to_str`. -/
  keyToStr : Key → Option Bytes
  /-- `nexus_hash_generate`. -/
  hashGenerate : Bytes → Hash
  hashGenerate_injective : Function.Injective hashGenerate

/-- The hash of the text that a key is written as. -/
def Pubkeys.keyHash {Key Hash : Type} (keys : Pubkeys Key Hash) (key : Key) : Option Hash :=
  (keys.keyToStr key).map keys.hashGenerate

/-- `crypto_hash_pubkey`. -/
def Pubkeys.cryptoHashPubkey {Key Hash : Type} (keys : Pubkeys Key Hash) (pubkey : Bytes) :
    Option Hash :=
  (keys.keyFromStr pubkey).bind keys.keyHash

/-- `NEXUS_ROOT_USER`. -/
def rootUser : UInt64 := 0

/-- `NEXUS_INVALID_USER_ID`. -/
def invalidUserId : UInt64 := 0xFFFFFFFFFFFFFFFF

/-- `NEXUS_MAX_NAMELEN`. -/
def maxNamelen : Nat := 25

/-- `struct nexus_user`; nothing reads its flags. -/
structure User (Hash : Type) where
  name : Bytes
  userId : UInt64
  userUuid : Uuid
  pubkeyHash : Hash
  deriving DecidableEq

/-- `struct nexus_usertable`.  The name of the owner is `NULL`, here empty. -/
structure UserTable (Hash : Type) where
  autoIncrement : UInt64
  userCount : UInt64
  owner : User Hash
  userlist : List (User Hash)
  deriving DecidableEq

namespace UserTable

variable {Key Hash : Type} (keys : Pubkeys Key Hash) (t : UserTable Hash)

/-- `nexus_usertable_create`: all fields are zero, the hash of the owner too. -/
def create (zeroHash : Hash) : UserTable Hash :=
  ⟨0, 0, ⟨[], 0, 0, zeroHash⟩, []⟩

/-- `nexus_usertable_set_owner_pubkey`. -/
def setOwnerPubkey (pubkey : Bytes) : UserTable Hash :=
  { t with owner := { t.owner with userId := rootUser, pubkeyHash := keys.hashGenerate pubkey } }

/-- `nexus_usertable_find_name`: names are compared up to `NEXUS_MAX_NAMELEN`. -/
def findName (name : Bytes) : Option (User Hash) :=
  t.userlist.find? fun user => user.name.take maxNamelen = name.take maxNamelen

variable [DecidableEq Hash]

/-- `nexus_usertable_find_pubkey_hash`: the owner first. -/
def findPubkeyHash (hash : Hash) : Option (User Hash) :=
  if t.owner.pubkeyHash = hash then some t.owner
  else t.userlist.find? fun user => user.pubkeyHash = hash

/-- `nexus_usertable_find_pubkey`. -/
def findPubkey (pubkey : Bytes) : Option (User Hash) :=
  (keys.cryptoHashPubkey pubkey).bind t.findPubkeyHash

/-- `__nexus_usertable_add` after it has hashed the text, with the uuid that is drawn. -/
def addHash (name : Bytes) (hash : Hash) (uuid : Uuid) : Option (UserTable Hash × User Hash) :=
  if (t.findName name).isSome then none
  else if (t.findPubkeyHash hash).isSome then none
  else
    let user : User Hash := ⟨name.take maxNamelen, t.autoIncrement + 1, uuid, hash⟩
    some ({ t with
      autoIncrement := t.autoIncrement + 1
      userCount := t.userCount + 1
      userlist := t.userlist ++ [user] }, user)

/-- `__nexus_usertable_add`. -/
def add (name pubkey : Bytes) (uuid : Uuid) : Option (UserTable Hash × User Hash) :=
  t.addHash name (keys.hashGenerate pubkey) uuid

/-- Take the first user that the predicate holds of out of the list; what is returned
is the uuid of the user. -/
def remove (p : User Hash → Bool) : Option (UserTable Hash × Uuid) :=
  (t.userlist.find? p).map fun user =>
    ({ t with userCount := t.userCount - 1, userlist := t.userlist.eraseP p }, user.userUuid)

/-- `nexus_usertable_remove_username`. -/
def removeUsername (name : Bytes) : Option (UserTable Hash × Uuid) :=
  t.remove fun user => user.name.take maxNamelen = name.take maxNamelen

/-- `nexus_usertable_remove_pubkey` after it has hashed the key: the owner is not in the
list. -/
def removeHash (hash : Hash) : Option (UserTable Hash × Uuid) :=
  t.remove fun user => user.pubkeyHash = hash

/-- `nexus_usertable_remove_pubkey`. -/
def removePubkey (pubkey : Bytes) : Option (UserTable Hash × Uuid) :=
  (keys.cryptoHashPubkey pubkey).bind t.removeHash

/-- The entries: the owner and the users. -/
def entries : List (User Hash) := t.owner :: t.userlist

/-- The owner is looked up like the users. -/
theorem findPubkeyHash_eq (hash : Hash) :
    t.findPubkeyHash hash = t.entries.find? fun user => user.pubkeyHash = hash := by
  rw [findPubkeyHash, entries, List.find?_cons]
  by_cases h : t.owner.pubkeyHash = hash <;> simp [h]

end UserTable

end Nexus.Users
