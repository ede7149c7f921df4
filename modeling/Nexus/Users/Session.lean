import Nexus.Lib.Runs
import Nexus.Users.Login

/-!
# Who is logged in

After a response that fails nobody should be logged in and no volume key be loaded,
and after a response that succeeds the user should be the one of the mounted volume
whose key answered the challenge.

The globals of an earlier login get in the way.  A response that fails leaves
`global_user_id` as it was, and the user table that was loaded for one volume is used
for the next.  A response whose supernode buffer cannot be read returns before it
clears the volume key, and one that fails in `abac_runtime_mount` has already set
`global_user_id`.  `login_iff` says for every run when none of this matters.
-/

namespace Nexus.Users

open Runs Option

variable {Key Hash : Type} [DecidableEq Hash] {crypto : Crypto Key Hash}

/-! ## What a response does -/

namespace Enclave

variable {s : Enclave Key Hash} {r : Response Hash} {exterior : Bytes}

/-- The user table that `nexus_vfs_acquire_user_table` returns. -/
def tableFor (s : Enclave Key Hash) (r : Response Hash) : Option (UserTable Hash) :=
  match s.userTableMetadata with
  | none => r.loaded
  | some (_, table) =>
    match r.revalidated with
    | .failed => none
    | .unchanged => some table
    | .reloaded table => some table

/-- The uuid under which it does: that of the cached table, if there is one. -/
def tableUuid (s : Enclave Key Hash) (supernode : Supernode) : Uuid :=
  (s.userTableMetadata.map Prod.fst).getD supernode.usertableUuid

/-- The user that a response finds: the signature is right, the supernode can be read
and the key is in the table. -/
def foundUser (crypto : Crypto Key Hash) (s : Enclave Key Hash) (exterior : Bytes)
    (r : Response Hash) : Option (User Hash) :=
  if s.verifies crypto exterior r && (s.globalVolumekey.bind r.supernode).isSome then
    (s.tableFor r).bind fun table => table.findPubkeyHash s.userPubkeyHash
  else none

omit [DecidableEq Hash] in
variable {supernode : Supernode}

theorem acquireUserTable_eq (hs : s.globalSupernode = some supernode) :
    s.acquireUserTable r = match s.tableFor r with
      | none => (s, none)
      | some table =>
        ({ s with userTableMetadata := some (s.tableUuid supernode, table) }, some table) := by
  unfold acquireUserTable tableFor tableUuid
  cases hcached : s.userTableMetadata with
  | none => cases hloaded : r.loaded <;> simp [hs]
  | some cached =>
    obtain ⟨uuid, table⟩ := cached
    cases r.revalidated with
    | failed => rfl
    | unchanged =>
      dsimp only [map_some, getD_some]
      rw [← hcached]
    | reloaded table => rfl

theorem mountVolume_of_not_found
    (hfound : ∀ supernode, s.globalVolumekey.bind r.supernode = some supernode →
      ((s.tableFor r).bind fun table => table.findPubkeyHash s.userPubkeyHash) = none) :
    (s.mountVolume r).2 = false ∧ (s.mountVolume r).1.globalUserId = s.globalUserId := by
  unfold mountVolume vfsMount
  cases hsupernode : s.globalVolumekey.bind r.supernode with
  | none => exact ⟨rfl, rfl⟩
  | some supernode =>
    have hnone := hfound supernode hsupernode
    set mounted : Enclave Key Hash := { s with globalSupernode := some supernode } with hmounted
    have hacquire := acquireUserTable_eq (s := mounted) (r := r) rfl
    rw [show mounted.tableFor r = s.tableFor r from rfl] at hacquire
    unfold verfiyPubkey
    cases htable : s.tableFor r with
    | none => simp [hacquire, htable, vfsDeinit, mounted]
    | some table =>
      rw [htable, bind_some] at hnone
      simp [hacquire, htable, vfsDeinit, mounted, hnone]

variable {user : User Hash}

/-- A mount that finds its user logs them in, and stays if the policies can be loaded. -/
theorem mountVolume_of_found {table : UserTable Hash}
    (hsupernode : s.globalVolumekey.bind r.supernode = some supernode)
    (htable : s.tableFor r = some table)
    (huser : table.findPubkeyHash s.userPubkeyHash = some user) :
    s.mountVolume r =
      ({ s with
        globalSupernode := if r.abacMounted then some supernode else none
        userTableMetadata := some (s.tableUuid supernode, table)
        globalUserStruct := some user
        globalUserId := user.userId }, r.abacMounted) := by
  unfold mountVolume vfsMount verfiyPubkey
  set mounted : Enclave Key Hash := { s with globalSupernode := some supernode } with hmounted
  have hacquire := acquireUserTable_eq (s := mounted) (r := r) rfl
  rw [show mounted.tableFor r = s.tableFor r from rfl, htable] at hacquire
  simp only [hsupernode, isSome_some, if_true, ← hmounted, hacquire]
  rw [show mounted.userPubkeyHash = s.userPubkeyHash from rfl, huser]
  cases habac : r.abacMounted <;> rfl

theorem authenticationResponse_of_not_found (hexterior : r.exterior = some exterior)
    (hfound : s.foundUser crypto exterior r = none) :
    (s.authenticationResponse crypto r).2 = false ∧
      (s.authenticationResponse crypto r).1.globalUserId = s.globalUserId ∧
      (s.authenticationResponse crypto r).1.globalVolumekey = none := by
  have hlogged : ∃ logged : Enclave Key Hash,
      (if s.verifies crypto exterior r then s.mountVolume r else (s, false)) = (logged, false) ∧
        logged.globalUserId = s.globalUserId := by
    split
    · next hverifies =>
      have hmount := mountVolume_of_not_found (s := s) (r := r) fun supernode hsupernode => by
        simpa [foundUser, hverifies, hsupernode] using hfound
      exact ⟨_, Prod.ext rfl hmount.1, hmount.2⟩
    · exact ⟨s, rfl, rfl⟩
  obtain ⟨logged, hlogged, hid⟩ := hlogged
  unfold authenticationResponse
  simp [hexterior, hlogged, hid]

/-- What a response found: the signature is right, and the user is in the table. -/
theorem foundUser_eq_some (hfound : s.foundUser crypto exterior r = some user) :
    ∃ supernode table, s.globalVolumekey.bind r.supernode = some supernode ∧
      s.tableFor r = some table ∧ table.findPubkeyHash s.userPubkeyHash = some user ∧
      s.verifies crypto exterior r = true := by
  unfold foundUser at hfound
  split at hfound
  · next hok =>
    obtain ⟨hverifies, hsome⟩ := Bool.and_eq_true_iff.mp hok
    obtain ⟨supernode, hsupernode⟩ := isSome_iff_exists.mp hsome
    obtain ⟨table, htable, huser⟩ := bind_eq_some_iff.mp hfound
    exact ⟨supernode, table, hsupernode, htable, huser, hverifies⟩
  · cases hfound

/-- A response that finds a user logs them in; without the policies it fails after that. -/
theorem authenticationResponse_of_found {table : UserTable Hash}
    (hexterior : r.exterior = some exterior)
    (hsupernode : s.globalVolumekey.bind r.supernode = some supernode)
    (htable : s.tableFor r = some table)
    (huser : table.findPubkeyHash s.userPubkeyHash = some user)
    (hverifies : s.verifies crypto exterior r = true) :
    (s.authenticationResponse crypto r).2 = r.abacMounted ∧
      (s.authenticationResponse crypto r).1.globalUserId = user.userId ∧
      (r.abacMounted = false → (s.authenticationResponse crypto r).1.globalVolumekey = none) ∧
      (r.abacMounted = true →
        (s.authenticationResponse crypto r).1.globalSupernode = some supernode ∧
        (s.authenticationResponse crypto r).1.userTableMetadata =
          some (s.tableUuid supernode, table) ∧
        (s.authenticationResponse crypto r).1.globalUserStruct = some user) := by
  have hmount := mountVolume_of_found hsupernode htable huser
  unfold authenticationResponse
  cases habac : r.abacMounted <;> simp [hexterior, hverifies, hmount, habac]

omit [DecidableEq Hash] in
/-- After a challenge that returns 0 the key, its hash and the nonce belong together. -/
theorem authenticationChallenge_eq_true {c : Challenge}
    (h : (s.authenticationChallenge crypto c).2 = true) :
    ∃ key hash, crypto.keyFromStr c.userPubkey = some key ∧ crypto.keyHash key = some hash ∧
      (s.authenticationChallenge crypto c).1.userPubkeyKey = some key ∧
      (s.authenticationChallenge crypto c).1.userPubkeyHash = hash ∧
      (s.authenticationChallenge crypto c).1.authenticationNonce = c.nonce := by
  revert h
  unfold authenticationChallenge loadAuthPubkey
  cases hkey : (if c.parses then crypto.keyFromStr c.userPubkey else none) with
  | none => simp
  | some key =>
    have hparsed : crypto.keyFromStr c.userPubkey = some key := by
      split at hkey
      · exact hkey
      · cases hkey
    cases hhash : (if c.hashes then crypto.cryptoHashPubkey c.userPubkey else none) with
    | none => simp
    | some hash =>
      have hhashed : crypto.keyHash key = some hash := by
        split at hhash
        · simpa [Pubkeys.cryptoHashPubkey, hparsed] using hhash
        · cases hhash
      cases c.volumekey with
      | none => simp
      | some volumekey => exact fun _ => ⟨key, hash, hparsed, hhashed, rfl, rfl, rfl⟩

end Enclave

/-! ## Runs of logins -/

/-- The ecalls of a login. -/
inductive LoginCall (Hash : Type) where
  | challenge (c : Challenge)
  | response (r : Response Hash)

/-- The enclave, and the key and the nonce of the last challenge if it returned 0 and was
not answered. -/
structure Session (Key Hash : Type) where
  enclave : Enclave Key Hash
  challenged : Option (Key × Bytes)

namespace Session

/-- A session of an enclave that was just started. -/
def start (crypto : Crypto Key Hash) : Session Key Hash := ⟨.init crypto, none⟩

/-- One ecall. -/
def step (crypto : Crypto Key Hash) (x : Session Key Hash) : LoginCall Hash → Session Key Hash
  | .challenge c =>
    let after := x.enclave.authenticationChallenge crypto c
    ⟨after.1, if after.2 then (crypto.keyFromStr c.userPubkey).map (·, c.nonce) else none⟩
  | .response r =>
    ⟨(x.enclave.authenticationResponse crypto r).1,
      if r.exterior.isSome then none else x.challenged⟩

/-- The challenge that can be answered is the one the globals are of. -/
def Pending (crypto : Crypto Key Hash) (x : Session Key Hash) : Prop :=
  ∀ key nonce, x.challenged = some (key, nonce) →
    x.enclave.userPubkeyKey = some key ∧ x.enclave.authenticationNonce = nonce ∧
      crypto.keyHash key = some x.enclave.userPubkeyHash

/-- The user is the one of the mounted volume whose key answered the challenge. -/
def LoggedIn (crypto : Crypto Key Hash) (x : Session Key Hash) (r : Response Hash)
    (after : Enclave Key Hash) : Prop :=
  ∃ supernode table user key nonce exterior,
    x.enclave.globalVolumekey.bind r.supernode = some supernode ∧
      after.globalSupernode = some supernode ∧
      after.userTableMetadata = some (supernode.usertableUuid, table) ∧
      after.globalUserStruct = some user ∧ user ∈ table.entries ∧
      crypto.keyHash key = some user.pubkeyHash ∧
      x.challenged = some (key, nonce) ∧ r.exterior = some exterior ∧
      crypto.pkVerify key (crypto.sha256 (nonce ++ exterior)) r.signature = true

/-- What a login must leave behind. -/
def Sound (crypto : Crypto Key Hash) (x : Session Key Hash) : LoginCall Hash → Prop
  | .challenge _ => True
  | .response r =>
    let after := x.enclave.authenticationResponse crypto r
    if after.2 then LoggedIn crypto x r after.1
    else after.1.globalUserId = invalidUserId ∧ after.1.globalVolumekey = none

/-- No global of an earlier login matters.  Nobody is logged in before a response that
fails.  No volume key is loaded if the supernode buffer cannot be read.  The policies of
a volume can be loaded when its user was found.  The challenge returned 0, and a user
table that is cached is the one of the volume. -/
def Undisturbed (crypto : Crypto Key Hash) (x : Session Key Hash) : LoginCall Hash → Prop
  | .challenge _ => True
  | .response r =>
    match r.exterior with
    | none => x.enclave.globalUserId = invalidUserId ∧ x.enclave.globalVolumekey = none
    | some exterior =>
      match x.enclave.foundUser crypto exterior r with
      | none => x.enclave.globalUserId = invalidUserId
      | some user =>
        if r.abacMounted then
          x.challenged.isSome ∧ ∀ supernode ∈ x.enclave.globalVolumekey.bind r.supernode,
            ∀ cached ∈ x.enclave.userTableMetadata, cached.1 = supernode.usertableUuid
        else user.userId = invalidUserId

variable {x : Session Key Hash}

theorem Pending.step (h : x.Pending crypto) (call : LoginCall Hash) :
    (x.step crypto call).Pending crypto := by
  intro key nonce hchallenged
  cases call with
  | challenge c =>
    obtain ⟨hok, hsome⟩ : (x.enclave.authenticationChallenge crypto c).2 = true ∧
        (crypto.keyFromStr c.userPubkey).map (·, c.nonce) = some (key, nonce) := by
      simpa [Session.step] using hchallenged
    obtain ⟨key', hash, hkey, hhash, huser, huserHash, hnonce⟩ :=
      Enclave.authenticationChallenge_eq_true hok
    obtain ⟨rfl, rfl⟩ : key' = key ∧ c.nonce = nonce := by simpa [hkey] using hsome
    refine ⟨huser, hnonce, ?_⟩
    rw [hhash, ← huserHash]
    rfl
  | response r =>
    cases hexterior : r.exterior with
    | none =>
      have hsame : x.step crypto (.response r) = x := by
        simp [Session.step, Enclave.authenticationResponse, hexterior]
      rw [hsame] at hchallenged ⊢
      exact h key nonce hchallenged
    | some exterior => simp [Session.step, hexterior] at hchallenged

omit [DecidableEq Hash] in
theorem tableUuid_eq_iff {s : Enclave Key Hash} {supernode : Supernode} :
    s.tableUuid supernode = supernode.usertableUuid ↔
      ∀ cached ∈ s.userTableMetadata, cached.1 = supernode.usertableUuid := by
  unfold Enclave.tableUuid
  cases s.userTableMetadata <;> simp

/-- The login succeeds for the user of the volume whose key answered the challenge. -/
theorem loggedIn_iff {r : Response Hash} {exterior : Bytes} {supernode : Supernode}
    {table : UserTable Hash} {user : User Hash} {after : Enclave Key Hash}
    (h : x.Pending crypto) (hexterior : r.exterior = some exterior)
    (hsupernode : x.enclave.globalVolumekey.bind r.supernode = some supernode)
    (huser : table.findPubkeyHash x.enclave.userPubkeyHash = some user)
    (hverifies : x.enclave.verifies crypto exterior r = true)
    (hafter : after.globalSupernode = some supernode ∧
      after.userTableMetadata = some (x.enclave.tableUuid supernode, table) ∧
      after.globalUserStruct = some user) :
    LoggedIn crypto x r after ↔ x.challenged.isSome ∧
      ∀ supernode ∈ x.enclave.globalVolumekey.bind r.supernode,
        ∀ cached ∈ x.enclave.userTableMetadata, cached.1 = supernode.usertableUuid := by
  obtain ⟨hmounted, hcached, hstruct⟩ := hafter
  simp only [hsupernode, mem_def, Option.some.injEq, forall_eq']
  constructor
  · rintro ⟨supernode', table', user', key, nonce, exterior', hsupernode', -, hcached', -, -, -,
      hchallenged, -⟩
    obtain rfl : supernode = supernode' := by simpa using hsupernode.symm.trans hsupernode'
    rw [hcached, Option.some.injEq, Prod.mk.injEq] at hcached'
    exact ⟨by simp [hchallenged], tableUuid_eq_iff.mp hcached'.1⟩
  · rintro ⟨hsome, huuid⟩
    obtain ⟨⟨key, nonce⟩, hchallenged⟩ := isSome_iff_exists.mp hsome
    obtain ⟨hkey, rfl, hhash⟩ := h key nonce hchallenged
    rw [UserTable.findPubkeyHash_eq] at huser
    have hhash' : user.pubkeyHash = x.enclave.userPubkeyHash := by
      simpa using List.find?_some huser
    have hsignature : r.rawBuf = true ∧ crypto.pkVerify key
        (crypto.sha256 (x.enclave.authenticationNonce ++ exterior)) r.signature = true := by
      simpa [Enclave.verifies, hkey] using hverifies
    exact ⟨supernode, table, user, key, _, exterior, hsupernode, hmounted,
      hcached.trans (by rw [tableUuid_eq_iff.mpr huuid]), hstruct, List.mem_of_find?_eq_some huser,
      hhash.trans (by rw [hhash']), hchallenged, hexterior, hsignature.2⟩

theorem sound_iff (h : x.Pending crypto) (call : LoginCall Hash) :
    Sound crypto x call ↔ Undisturbed crypto x call := by
  cases call with
  | challenge c => exact Iff.rfl
  | response r =>
    unfold Sound Undisturbed
    cases hexterior : r.exterior with
    | none => simp [Enclave.authenticationResponse, hexterior]
    | some exterior =>
      cases hfound : x.enclave.foundUser crypto exterior r with
      | none =>
        obtain ⟨hret, hid, hvolumekey⟩ :=
          Enclave.authenticationResponse_of_not_found hexterior hfound
        simp [hexterior, hfound, hret, hid, hvolumekey]
      | some user =>
        obtain ⟨supernode, table, hsupernode, htable, huser, hverifies⟩ :=
          Enclave.foundUser_eq_some hfound
        obtain ⟨hret, hid, hfails, hmounts⟩ := Enclave.authenticationResponse_of_found
          hexterior hsupernode htable huser hverifies
        cases habac : r.abacMounted with
        | false => simp [hexterior, hfound, hret, habac, hid, hfails habac]
        | true =>
          simp only [hexterior, hfound, hret, habac, if_true]
          exact loggedIn_iff h hexterior hsupernode huser hverifies (hmounts habac)

/-- The logins of a run leave behind what they must exactly if no global of an earlier
login matters to any of them. -/
theorem login_iff (crypto : Crypto Key Hash) (calls : List (LoginCall Hash)) :
    Meets (step crypto) (Sound crypto) (start crypto) calls ↔
      Meets (step crypto) (Undisturbed crypto) (start crypto) calls :=
  meets_iff_meets (P := Pending crypto) (fun _ call h _ => h.step call)
    (fun _ call h => sound_iff h call) (fun _ _ hnone => by cases hnone) calls

end Session

/-! ## Two logins that go wrong -/

/-- A cryptography to run the model with: keys are texts, and a signature is the key. -/
def toyCrypto : Crypto Bytes Bytes where
  keyFromStr := some
  keyToStr := some
  hashGenerate := id
  hashGenerate_injective := Function.injective_id
  zeroHash := []
  sha256 := id
  pkVerify key _ signature := key == signature

/-- The user table of a volume with an owner only. -/
def ownedBy (pubkey : Bytes) : UserTable Bytes :=
  (UserTable.create []).setOwnerPubkey toyCrypto.toPubkeys pubkey

/-- A challenge for the key and the volume. -/
def challengeFor (pubkey : Bytes) (volumekey : BitVec 128) : LoginCall Bytes :=
  .challenge ⟨pubkey, true, true, some volumekey, [42]⟩

/-- A response for the volume with the user table, all of whose helpers succeed. -/
def responseFor (signature : Bytes) (uuid : Uuid) (table : UserTable Bytes) : LoginCall Bytes :=
  .response ⟨some [1], true, signature, fun _ => some ⟨uuid, uuid⟩, some table, .unchanged, true⟩

/-- The owner with the key 5 logs into a volume. -/
def firstLogin : List (LoginCall Bytes) :=
  [challengeFor [5] 1, responseFor [5] 1 (ownedBy [5])]

/-- Somebody with another key fails to log in, and the owner stays logged in.  The owner of
the first volume logs into a second one, which is owned by the key 6, and is found in the
user table of the first. -/
theorem earlierLogin_disturbs :
    ¬ Meets (Session.step toyCrypto) (Session.Sound toyCrypto) (Session.start toyCrypto)
        (firstLogin ++ [challengeFor [6] 1, responseFor [5] 1 (ownedBy [5])]) ∧
      ¬ Meets (Session.step toyCrypto) (Session.Sound toyCrypto) (Session.start toyCrypto)
        (firstLogin ++ [challengeFor [5] 2, responseFor [5] 2 (ownedBy [6])]) := by
  constructor
  · rintro ⟨-, -, -, hfailed, -⟩
    exact absurd (show rootUser = invalidUserId from hfailed.1) (by decide)
  · rintro ⟨-, -, -, ⟨supernode, table, user, key, nonce, exterior, hsupernode, -, htable, -⟩, -⟩
    obtain rfl : (⟨2, 2⟩ : Supernode) = supernode := Option.some.inj hsupernode
    have huuid : (1 : Uuid) = 2 := congrArg Prod.fst (Option.some.inj htable)
    cases huuid

end Nexus.Users
