import Nexus.Lib.Keyed
import Nexus.Users.Session

/-!
# One key, one identity

A user is enrolled by a text of a public key, and a key has many texts.  Enrolment
hashes the text as it is given; the lookup, the login and the removal parse the text
and hash what the parsed key is written as.  They agree on a text exactly if it is the
one that its key is written as.

`oneIdentity_iff` says this for a table, and `enrolled_identity_iff` for the tables of
every run of the operations on a new volume.
-/

namespace Nexus.Users

open Runs List UserTable

variable {Key Hash : Type} [DecidableEq Hash] {crypto : Crypto Key Hash}

/-- The text is the one that its key is written as. -/
def Pubkeys.Canonical {Key Hash : Type} (keys : Pubkeys Key Hash) (pubkey : Bytes) : Prop :=
  ∀ key, keys.keyFromStr pubkey = some key → keys.keyToStr key = some pubkey

omit [DecidableEq Hash] in
theorem Pubkeys.canonical_iff {keys : Pubkeys Key Hash} {pubkey : Bytes} {key : Key}
    (hkey : keys.keyFromStr pubkey = some key) :
    keys.Canonical pubkey ↔ keys.cryptoHashPubkey pubkey = some (keys.hashGenerate pubkey) := by
  simp only [Canonical, cryptoHashPubkey, keyHash, hkey, Option.some.injEq, forall_eq',
    Option.bind_some, Option.map_eq_some_iff]
  constructor
  · intro hwritten
    exact ⟨pubkey, hwritten, rfl⟩
  · rintro ⟨written, hwritten, hhash⟩
    rwa [← keys.hashGenerate_injective hhash]

/-- A login with the key on a volume with the table, all of whose helpers succeed. -/
structure SmoothLogin (crypto : Crypto Key Hash) (t : UserTable Hash) (pubkey : Bytes)
    (s : Enclave Key Hash) (c : Challenge) (r : Response Hash) : Prop where
  userPubkey : c.userPubkey = pubkey
  parses : c.parses = true
  hashes : c.hashes = true
  rawBuf : r.rawBuf = true
  volume : ∃ volumekey supernode, c.volumekey = some volumekey ∧
    r.supernode volumekey = some supernode
  signature : ∃ key exterior, crypto.keyFromStr pubkey = some key ∧ r.exterior = some exterior ∧
    crypto.pkVerify key (crypto.sha256 (c.nonce ++ exterior)) r.signature = true
  table : s.tableFor r = some t
  abacMounted : r.abacMounted = true

/-- A login with the key is a login of the user. -/
def LogsInAs (crypto : Crypto Key Hash) (t : UserTable Hash) (pubkey : Bytes) (user : User Hash) :
    Prop :=
  ∀ s c r, SmoothLogin crypto t pubkey s c r →
    let challenged := s.authenticationChallenge crypto c
    let after := challenged.1.authenticationResponse crypto r
    challenged.2 = true ∧ after.2 = true ∧ after.1.globalUserStruct = some user

theorem logsInAs_of_find {t : UserTable Hash} {pubkey : Bytes} {hash : Hash} {user : User Hash}
    (hhash : crypto.cryptoHashPubkey pubkey = some hash)
    (huser : t.findPubkeyHash hash = some user) : LogsInAs crypto t pubkey user := by
  intro s c r h
  obtain ⟨volumekey, supernode, hvolumekey, hsupernode⟩ := h.volume
  obtain ⟨key, exterior, hkey, hexterior, hsignature⟩ := h.signature
  let challenged : Enclave Key Hash := { s.clearAuthPubkey crypto with
    userPubkeyKey := some key
    userPubkeyHash := hash
    globalVolumekey := some volumekey
    authenticationNonce := c.nonce }
  have hchallenge : s.authenticationChallenge crypto c = (challenged, true) := by
    simp [Enclave.authenticationChallenge, Enclave.loadAuthPubkey, h.parses, h.hashes,
      h.userPubkey, hkey, hhash, hvolumekey, challenged]
  have htable : challenged.tableFor r = some t := by
    simpa [Enclave.tableFor, challenged] using h.table
  have hverifies : challenged.verifies crypto exterior r = true := by
    simp [Enclave.verifies, h.rawBuf, hsignature, challenged]
  obtain ⟨hret, -, -, hmounts⟩ :=
    Enclave.authenticationResponse_of_found (s := challenged) hexterior hsupernode htable huser
      hverifies
  rw [hchallenge]
  exact ⟨rfl, hret.trans h.abacMounted, (hmounts h.abacMounted).2.2⟩

/-! ## Identity in a table -/

/-- Whoever is enrolled with a text is found, logged in and removed by it, and a key has one
entry. -/
structure OneIdentity (crypto : Crypto Key Hash) (t : UserTable Hash) : Prop where
  owner : ∀ pubkey key, crypto.keyFromStr pubkey = some key →
    t.owner.pubkeyHash = crypto.hashGenerate pubkey →
      t.findPubkey crypto.toPubkeys pubkey = some t.owner ∧ LogsInAs crypto t pubkey t.owner
  user : ∀ pubkey key, crypto.keyFromStr pubkey = some key → ∀ user ∈ t.userlist,
    user.pubkeyHash = crypto.hashGenerate pubkey →
      t.findPubkey crypto.toPubkeys pubkey = some user ∧ LogsInAs crypto t pubkey user ∧
        t.removePubkey crypto.toPubkeys pubkey =
          some ({ t with userCount := t.userCount - 1, userlist := t.userlist.erase user },
            user.userUuid)
  entry : ∀ pubkey pubkey' key, crypto.keyFromStr pubkey = some key →
    crypto.keyFromStr pubkey' = some key → ∀ user ∈ t.entries, ∀ user' ∈ t.entries,
      user.pubkeyHash = crypto.hashGenerate pubkey →
        user'.pubkeyHash = crypto.hashGenerate pubkey' → user = user'

/-- Every entry has a hash of its own. -/
def UserTable.Distinct (t : UserTable Hash) : Prop := (t.entries.map User.pubkeyHash).Nodup

/-- If the keys are different, the first element with the key is the element. -/
theorem erase_eq_eraseP_of_nodup {l : List (User Hash)} (hl : (l.map User.pubkeyHash).Nodup)
    {user : User Hash} (huser : user ∈ l) :
    l.erase user = l.eraseP fun other => other.pubkeyHash = user.pubkeyHash := by
  rw [erase_eq_eraseP]
  induction l with
  | nil => rfl
  | cons first rest ih =>
    obtain ⟨hfirst, hrest⟩ := nodup_cons.mp hl
    obtain rfl | huser := mem_cons.mp huser
    · simp
    · have hne : first.pubkeyHash ≠ user.pubkeyHash := fun heq =>
        hfirst (heq ▸ mem_map_of_mem huser)
      have hne' : first ≠ user := fun heq => hne (heq ▸ rfl)
      rw [eraseP_cons_of_neg (by simpa using hne'.symm),
        eraseP_cons_of_neg (by simpa using hne), ih hrest huser]

/-- A table has one identity for each key exactly if the texts its entries were enrolled
with are those that their keys are written as. -/
theorem oneIdentity_iff {t : UserTable Hash} (h : t.Distinct) :
    OneIdentity crypto t ↔ ∀ user ∈ t.entries, ∀ pubkey,
      user.pubkeyHash = crypto.hashGenerate pubkey → crypto.Canonical pubkey := by
  constructor
  · intro hidentity user huser pubkey hhash key hkey
    have hfind : t.findPubkey crypto.toPubkeys pubkey = some user := by
      obtain rfl | huser := mem_cons.mp huser
      · exact (hidentity.owner pubkey key hkey hhash).1
      · exact (hidentity.user pubkey key hkey user huser hhash).1
    obtain ⟨hash, hlookup, hfound⟩ := Option.bind_eq_some_iff.mp hfind
    rw [findPubkeyHash_eq] at hfound
    have hsame : user.pubkeyHash = hash := by simpa using find?_some hfound
    rw [← hsame, hhash] at hlookup
    exact (Pubkeys.canonical_iff hkey).mpr hlookup key hkey
  · intro hcanonical
    have hlookup : ∀ user ∈ t.entries, ∀ pubkey key, crypto.keyFromStr pubkey = some key →
        user.pubkeyHash = crypto.hashGenerate pubkey →
          crypto.cryptoHashPubkey pubkey = some user.pubkeyHash := by
      intro user huser pubkey key hkey hhash
      rw [hhash]
      exact (Pubkeys.canonical_iff hkey).mp (hcanonical user huser pubkey hhash)
    have hfind : ∀ user ∈ t.entries, t.findPubkeyHash user.pubkeyHash = some user := by
      intro user huser
      rw [findPubkeyHash_eq]
      exact Keyed.get_of_mem h huser
    refine ⟨fun pubkey key hkey hhash => ?_, fun pubkey key hkey user huser hhash => ?_,
      fun pubkey pubkey' key hkey hkey' user huser user' huser' hhash hhash' => ?_⟩
    · have hmem : t.owner ∈ t.entries := mem_cons_self
      have hown := hlookup t.owner hmem pubkey key hkey hhash
      refine ⟨?_, logsInAs_of_find hown (hfind _ hmem)⟩
      rw [findPubkey, hown]
      exact hfind _ hmem
    · have hmem : user ∈ t.entries := mem_cons_of_mem _ huser
      have hown := hlookup user hmem pubkey key hkey hhash
      refine ⟨?_, logsInAs_of_find hown (hfind _ hmem), ?_⟩
      · rw [findPubkey, hown]
        exact hfind _ hmem
      · have hlist := (nodup_cons.mp h).2
        rw [removePubkey, hown, Option.bind_some, removeHash, remove,
          Keyed.find?_of_mem hlist huser, Option.map_some, erase_eq_eraseP_of_nodup hlist huser]
    · -- both texts are the one that the key is written as
      have hwritten := hcanonical user huser pubkey hhash key hkey
      have hwritten' := hcanonical user' huser' pubkey' hhash' key hkey'
      cases hwritten.symm.trans hwritten'
      have hfound := hfind user huser
      rw [hhash, ← hhash', hfind user' huser'] at hfound
      exact (Option.some.inj hfound).symm

/-! ## Identity along the runs of a volume -/

/-- The operations on the user table of a volume. -/
inductive TableCall where
  | add (name pubkey : Bytes) (uuid : Uuid)
  | removeUsername (name : Bytes)
  | removePubkey (pubkey : Bytes)

namespace UserTable

/-- One operation; one that fails leaves the table. -/
def step (keys : Pubkeys Key Hash) (t : UserTable Hash) : TableCall → UserTable Hash
  | .add name pubkey uuid => ((t.add keys name pubkey uuid).map Prod.fst).getD t
  | .removeUsername name => ((t.removeUsername name).map Prod.fst).getD t
  | .removePubkey pubkey => ((t.removePubkey keys pubkey).map Prod.fst).getD t

/-- A text that is enrolled is the one that its key is written as. -/
def EnrolsCanonical (keys : Pubkeys Key Hash) (t : UserTable Hash) : TableCall → Prop
  | .add name pubkey _ => t.findName name = none →
      t.findPubkeyHash (keys.hashGenerate pubkey) = none → keys.Canonical pubkey
  | _ => True

variable {keys : Pubkeys Key Hash} {t : UserTable Hash}

omit [DecidableEq Hash] in
/-- The entries that are left after a removal are entries of the table before. -/
theorem entries_remove_sublist (p : User Hash → Bool) :
    (((t.remove p).map Prod.fst).getD t).entries.Sublist t.entries := by
  unfold remove
  cases t.userlist.find? p with
  | none => exact List.Sublist.refl _
  | some user => exact List.Sublist.cons_cons _ eraseP_sublist

theorem entries_removePubkey_sublist (pubkey : Bytes) :
    (t.step keys (.removePubkey pubkey)).entries.Sublist t.entries := by
  simp only [step, removePubkey]
  cases keys.cryptoHashPubkey pubkey with
  | none => exact List.Sublist.refl _
  | some hash => exact entries_remove_sublist _

theorem entries_add {name pubkey : Bytes} (uuid : Uuid) (hname : t.findName name = none)
    (hhash : t.findPubkeyHash (keys.hashGenerate pubkey) = none) :
    ∃ user : User Hash, user.pubkeyHash = keys.hashGenerate pubkey ∧
      (t.step keys (.add name pubkey uuid)).entries = t.entries ++ [user] := by
  refine ⟨⟨name.take maxNamelen, t.autoIncrement + 1, uuid, keys.hashGenerate pubkey⟩, rfl, ?_⟩
  simp [step, add, addHash, hname, hhash, entries]

theorem step_add_of_refused {name pubkey : Bytes} (uuid : Uuid)
    (h : ¬ (t.findName name = none ∧ t.findPubkeyHash (keys.hashGenerate pubkey) = none)) :
    t.step keys (.add name pubkey uuid) = t := by
  cases hname : t.findName name with
  | some user => simp [step, add, addHash, hname]
  | none =>
    cases hhash : t.findPubkeyHash (keys.hashGenerate pubkey) with
    | some user => simp [step, add, addHash, hhash]
    | none => exact absurd ⟨hname, hhash⟩ h

theorem Distinct.step (h : t.Distinct) (call : TableCall) : (t.step keys call).Distinct := by
  cases call with
  | add name pubkey uuid =>
    by_cases hnew : t.findName name = none ∧ t.findPubkeyHash (keys.hashGenerate pubkey) = none
    · obtain ⟨user, huser, hentries⟩ := entries_add uuid hnew.1 hnew.2
      have hfresh := hnew.2
      rw [findPubkeyHash_eq, find?_eq_none] at hfresh
      rw [Distinct, hentries, map_append, nodup_append]
      refine ⟨h, nodup_singleton _, ?_⟩
      rintro hash hmem hash' hmem' rfl
      obtain ⟨other, hother, rfl⟩ := mem_map.mp hmem
      have hsame : other.pubkeyHash = user.pubkeyHash := by simpa using hmem'
      exact hfresh other hother (by simpa [huser] using hsame)
    · rwa [step_add_of_refused uuid hnew]
  | removeUsername name => exact h.sublist ((entries_remove_sublist _).map _)
  | removePubkey pubkey => exact h.sublist ((entries_removePubkey_sublist pubkey).map _)

end UserTable

theorem oneIdentity_step_iff {t : UserTable Hash} (h : t.Distinct)
    (hidentity : OneIdentity crypto t) (call : TableCall) :
    OneIdentity crypto (t.step crypto.toPubkeys call) ↔
      t.EnrolsCanonical crypto.toPubkeys call := by
  have hcanonical := (oneIdentity_iff h).mp hidentity
  rw [oneIdentity_iff (h.step call)]
  cases call with
  | add name pubkey uuid =>
    by_cases hnew : t.findName name = none ∧
        t.findPubkeyHash (crypto.hashGenerate pubkey) = none
    · obtain ⟨user, huser, hentries⟩ := entries_add uuid hnew.1 hnew.2
      rw [hentries]
      constructor
      · intro hall _ _
        exact hall user (by simp) pubkey huser
      · intro henrols other hother pubkey' hhash
        obtain hold | hlast := mem_append.mp hother
        · exact hcanonical other hold pubkey' hhash
        · obtain rfl : other = user := by simpa using hlast
          rw [← crypto.hashGenerate_injective (huser.symm.trans hhash)]
          exact henrols hnew.1 hnew.2
    · rw [step_add_of_refused uuid hnew]
      exact ⟨fun _ hname hhash => absurd ⟨hname, hhash⟩ hnew, fun _ => hcanonical⟩
  | removeUsername name =>
    exact ⟨fun _ => trivial, fun _ user huser =>
      hcanonical user ((entries_remove_sublist _).subset huser)⟩
  | removePubkey pubkey =>
    exact ⟨fun _ => trivial, fun _ user huser =>
      hcanonical user ((entries_removePubkey_sublist pubkey).subset huser)⟩

/-- The user table of a new volume. -/
def newTable (crypto : Crypto Key Hash) (pubkey : Bytes) : UserTable Hash :=
  (UserTable.create crypto.zeroHash).setOwnerPubkey crypto.toPubkeys pubkey

/-- Along the runs of a volume every key has one identity exactly if the owner and the users
are enrolled with the texts that their keys are written as. -/
theorem enrolled_identity_iff (crypto : Crypto Key Hash) (pubkey : Bytes)
    (calls : List TableCall) :
    Always (UserTable.step crypto.toPubkeys) (OneIdentity crypto) (newTable crypto pubkey) calls ↔
      crypto.Canonical pubkey ∧ Meets (UserTable.step crypto.toPubkeys)
        (UserTable.EnrolsCanonical crypto.toPubkeys) (newTable crypto pubkey) calls := by
  have hdistinct : (newTable crypto pubkey).Distinct := nodup_singleton _
  have hstart : OneIdentity crypto (newTable crypto pubkey) ↔ crypto.Canonical pubkey := by
    rw [oneIdentity_iff hdistinct]
    constructor
    · intro hall
      exact hall _ mem_cons_self pubkey rfl
    · intro hcanonical user huser pubkey' hhash
      obtain rfl : user = (newTable crypto pubkey).owner := mem_singleton.mp huser
      rwa [← crypto.hashGenerate_injective hhash]
  have hrun := always_iff_meets_of_invariant (I := UserTable.Distinct) (P := OneIdentity crypto)
    (fun _ call h => h.step call) (fun _ call h hidentity => oneIdentity_step_iff h hidentity call)
    hdistinct
  constructor
  · intro halways
    exact ⟨hstart.mp halways.head, (hrun halways.head calls).mp halways⟩
  · rintro ⟨hcanonical, hmeets⟩
    exact (hrun (hstart.mpr hcanonical) calls).mpr hmeets

/-- Keys whose texts may have newlines, which are not part of the key. -/
def newlineCrypto : Crypto Bytes Bytes :=
  { toyCrypto with keyFromStr := fun pubkey => some (pubkey.filter (· ≠ 10)) }

/-- A user is enrolled with the text of a key and a newline.  They are not found by that text,
and the same key can be enrolled once more. -/
theorem newline_not_found :
    let enrolled := (newTable newlineCrypto [1]).step newlineCrypto.toPubkeys (.add [97] [5, 10] 1)
    enrolled.findPubkey newlineCrypto.toPubkeys [5, 10] = none ∧
      enrolled.removePubkey newlineCrypto.toPubkeys [5, 10] = none ∧
      (enrolled.step newlineCrypto.toPubkeys (.add [98] [5] 2)).userlist.map User.pubkeyHash =
        [[5, 10], [5]] ∧
      newlineCrypto.keyFromStr [5, 10] = newlineCrypto.keyFromStr [5] := by
  decide

end Nexus.Users
