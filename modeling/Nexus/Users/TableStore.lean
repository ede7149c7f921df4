import Nexus.Users.Identity

/-!
# The stored user table

A name in the user table is kept and compared up to `NEXUS_MAX_NAMELEN` bytes, a user is
given the next value of `auto_increment` as id, and the table is stored as a header
followed by one record of fixed size for each user.

`userTable_consistent` says what holds of the table along every run of additions and
removals on a new volume: names, keys and ids are used once, no user has the key or the id
of the owner, and the stored table is read back as it was.  Hashes are 32 bytes here, so
nothing is assumed about which texts have the same hash.
-/

namespace Nexus.Users

open Codec Runs List UserTable

/-- How the texts of public keys are hashed: `nexus_hash_generate` and
`crypto_hash_pubkey`. -/
structure KeyHashes (Hash : Type) where
  hashGenerate : Bytes → Hash
  cryptoHashPubkey : Bytes → Option Hash

/-- The hashes that a library for public keys gives. -/
def Pubkeys.hashes {Key Hash : Type} (keys : Pubkeys Key Hash) : KeyHashes Hash :=
  ⟨keys.hashGenerate, keys.cryptoHashPubkey⟩

namespace UserTable

section Operations

variable {Key Hash : Type} [DecidableEq Hash] (t : UserTable Hash)

/-- One operation: the table, and the id of the user that it enrolled. -/
def hashStep (hashes : KeyHashes Hash) : TableCall → UserTable Hash × Option UInt64
  | .add name pubkey uuid =>
    match t.addHash name (hashes.hashGenerate pubkey) uuid with
    | some (t', user) => (t', some user.userId)
    | none => (t, none)
  | .removeUsername name => (((t.removeUsername name).map Prod.fst).getD t, none)
  | .removePubkey pubkey =>
    ((((hashes.cryptoHashPubkey pubkey).bind t.removeHash).map Prod.fst).getD t, none)

theorem hashStep_hashes (keys : Pubkeys Key Hash) (call : TableCall) :
    (t.hashStep keys.hashes call).1 = t.step keys call := by
  cases call with
  | add name pubkey uuid =>
    simp only [hashStep, step, add, Pubkeys.hashes]
    cases t.addHash name (keys.hashGenerate pubkey) uuid <;> rfl
  | removeUsername name => rfl
  | removePubkey pubkey => rfl

end Operations

end UserTable

/-! ## The stored form -/

/-- The hashes of the file format, `CONFIG_HASH_SIZE` bytes. -/
abbrev StoredHash := BitVec 256

/-- What the header of a stored table has besides the table. -/
structure TableHeader where
  myUuid : Uuid
  rootUuid : Uuid
  totalSize : BitVec 64

/-- `__write_user_to_buf`; nothing sets the flags, which are zero. -/
def writeUserToBuf (user : User StoredHash) : Bytes :=
  le 4 0 ++ le 8 user.userId.toNat ++ le 16 user.userUuid.toNat ++ le 32 user.pubkeyHash.toNat ++
    padTo maxNamelen (user.name.take maxNamelen)

/-- `__read_user_from_buf`. -/
def readUserFromBuf : Parser (User StoredHash) := fun bs => do
  let (_flags, bs) ← nat 4 bs
  let (userId, bs) ← nat 8 bs
  let (userUuid, bs) ← nat 16 bs
  let (pubkeyHash, bs) ← nat 32 bs
  let (name, bs) ← bytes maxNamelen bs
  some (⟨cstring name, UInt64.ofNat userId, BitVec.ofNat 128 userUuid,
    BitVec.ofNat 256 pubkeyHash⟩, bs)

/-- `__serialize_usertable`. -/
def serializeUsertable (header : TableHeader) (t : UserTable StoredHash) : Bytes :=
  le 16 header.myUuid.toNat ++ le 16 header.rootUuid.toNat ++ le 8 header.totalSize.toNat ++
    le 8 t.userCount.toNat ++ le 8 t.autoIncrement.toNat ++ le 32 t.owner.pubkeyHash.toNat ++
    t.userlist.flatMap writeUserToBuf

/-- `__parse_usertable` into a zeroed table; a buffer that is too short for its users is read
beyond its end, which is `none` here. -/
def parseUsertable : Parser (TableHeader × UserTable StoredHash) := fun bs => do
  let (myUuid, bs) ← nat 16 bs
  let (rootUuid, bs) ← nat 16 bs
  let (totalSize, bs) ← nat 8 bs
  let (userCount, bs) ← nat 8 bs
  let (autoIncrement, bs) ← nat 8 bs
  let (pubkeyHash, bs) ← nat 32 bs
  let (users, bs) ← many readUserFromBuf userCount bs
  some ((⟨BitVec.ofNat 128 myUuid, BitVec.ofNat 128 rootUuid, BitVec.ofNat 64 totalSize⟩,
    ⟨UInt64.ofNat autoIncrement, UInt64.ofNat userCount,
      ⟨[], 0, 0, BitVec.ofNat 256 pubkeyHash⟩, users⟩), bs)

theorem readUserFromBuf_append {user : User StoredHash} (hlength : user.name.length ≤ maxNamelen)
    (hnul : (0 : UInt8) ∉ user.name) (rest : Bytes) :
    readUserFromBuf (writeUserToBuf user ++ rest) = some (user, rest) := by
  simp only [readUserFromBuf, writeUserToBuf, append_assoc, take_of_length_le hlength]
  rw [nat_append_of_lt (by decide)]
  simp [bytes_append_of_length (length_padTo hlength), cstring_padTo hnul]

/-! ## Runs -/

/-- A user table, and the ids that were ever given to a user. -/
structure TableRun where
  table : UserTable StoredHash
  issued : List UInt64

namespace TableRun

/-- The table of a new volume with the key of its owner. -/
def create (ownerHash : StoredHash) : TableRun :=
  ⟨⟨0, 0, ⟨[], rootUser, 0, ownerHash⟩, []⟩, []⟩

def step (hashes : KeyHashes StoredHash) (s : TableRun) (call : TableCall) : TableRun :=
  ⟨(s.table.hashStep hashes call).1, s.issued ++ (s.table.hashStep hashes call).2.toList⟩

/-- What holds of a table and of its stored form. -/
structure Consistent (s : TableRun) : Prop where
  count : s.table.userCount.toNat = s.table.userlist.length
  names : (s.table.userlist.map fun user => user.name.take maxNamelen).Nodup
  hashes : (s.table.userlist.map User.pubkeyHash).Nodup
  notOwner : ∀ user ∈ s.table.userlist, user.pubkeyHash ≠ s.table.owner.pubkeyHash
  ids : (s.table.userlist.map User.userId).Nodup
  idRange : ∀ user ∈ s.table.userlist, user.userId ≠ 0 ∧ user.userId ≤ s.table.autoIncrement
  neverReused : s.issued.Nodup ∧ ∀ user ∈ s.table.userlist, user.userId ∈ s.issued
  stored : ∀ header, parseUsertable (serializeUsertable header s.table) =
    some ((header, s.table), [])

end TableRun

/-- The call is an addition. -/
def TableCall.isAdd : TableCall → Bool
  | .add .. => true
  | _ => false

/-- The name of an addition is a C string. -/
def TableCall.NameIsString : TableCall → Prop
  | .add name .. => (0 : UInt8) ∉ name
  | _ => True

namespace TableRun

variable {s : TableRun} {hashes : KeyHashes StoredHash}

/-! ## The invariant -/

/-- The ids that were given are the values that `auto_increment` has had. -/
structure Sound (s : TableRun) : Prop where
  count : s.table.userCount.toNat = s.table.userlist.length
  names : (s.table.userlist.map fun user => user.name.take maxNamelen).Nodup
  distinct : s.table.Distinct
  issued : s.issued.map UInt64.toNat = List.range' 1 s.table.autoIncrement.toNat
  ids : (s.table.userlist.map User.userId).Sublist s.issued
  strings : ∀ user ∈ s.table.userlist, user.name.length ≤ maxNamelen ∧ (0 : UInt8) ∉ user.name
  owner : s.table.owner = ⟨[], 0, 0, s.table.owner.pubkeyHash⟩

theorem sound_create (ownerHash : StoredHash) : (create ownerHash).Sound where
  count := rfl
  names := nodup_nil
  distinct := nodup_singleton _
  issued := rfl
  ids := List.Sublist.refl _
  strings := fun _ h => absurd h not_mem_nil
  owner := rfl

namespace Sound

section

variable (h : s.Sound)
include h

theorem nodup_issued : s.issued.Nodup := by
  have hnodup : (s.issued.map UInt64.toNat).Nodup := by
    rw [h.issued]
    exact nodup_range'
  exact hnodup.of_map _

theorem range_of_mem_issued {id : UInt64} (hid : id ∈ s.issued) :
    id ≠ 0 ∧ id ≤ s.table.autoIncrement := by
  have hmem : id.toNat ∈ s.issued.map UInt64.toNat := mem_map_of_mem hid
  rw [h.issued, mem_range'_1] at hmem
  constructor
  · rintro rfl
    exact absurd hmem.1 (by decide)
  · rw [UInt64.le_iff_toNat_le]
    omega

theorem mem_issued {user : User StoredHash} (huser : user ∈ s.table.userlist) :
    user.userId ∈ s.issued :=
  h.ids.subset (mem_map_of_mem huser)

theorem length_issued : s.issued.length = s.table.autoIncrement.toNat := by
  have hissued := congrArg List.length h.issued
  rwa [length_map, length_range'] at hissued

theorem length_userlist_le : s.table.userlist.length ≤ s.table.autoIncrement.toNat := by
  have hlength := h.ids.length_le
  rwa [length_map, h.length_issued] at hlength

theorem stored (header : TableHeader) :
    parseUsertable (serializeUsertable header s.table) = some ((header, s.table), []) := by
  have hmany : many readUserFromBuf s.table.userCount.toNat
      (s.table.userlist.flatMap writeUserToBuf) = some (s.table.userlist, []) := by
    refine many_all h.count fun user huser rest => ?_
    have hname := h.strings user huser
    exact readUserFromBuf_append hname.1 hname.2 rest
  simp only [parseUsertable, serializeUsertable, append_assoc, nat_append_sixteen,
    nat_append_eight, nat_append_uint64, nat_append_thirtyTwo, hmany, Option.bind_eq_bind,
    Option.bind_some, BitVec.ofNat_toNat, BitVec.setWidth_eq, UInt64.ofNat_toNat, ← h.owner]

theorem consistent : s.Consistent where
  count := h.count
  names := h.names
  hashes := (nodup_cons.mp h.distinct).2
  notOwner := by
    intro user huser hsame
    refine (nodup_cons.mp h.distinct).1 ?_
    rw [← hsame]
    exact mem_map_of_mem huser
  ids := h.ids.nodup h.nodup_issued
  idRange := fun user huser => h.range_of_mem_issued (h.mem_issued huser)
  neverReused := ⟨h.nodup_issued, fun user huser => h.mem_issued huser⟩
  stored := h.stored

/-! ## Steps -/

theorem remove (p : User StoredHash → Bool) :
    Sound ⟨((s.table.remove p).map Prod.fst).getD s.table, s.issued⟩ := by
  unfold UserTable.remove
  cases hfind : s.table.userlist.find? p with
  | none => exact h
  | some user =>
    have hmem : user ∈ s.table.userlist := mem_of_find?_eq_some hfind
    have hlength : (s.table.userlist.eraseP p).length = s.table.userlist.length - 1 :=
      length_eraseP_of_mem hmem (find?_some hfind)
    have hsub : (s.table.userlist.eraseP p).Sublist s.table.userlist := eraseP_sublist
    refine ⟨?_, h.names.sublist (hsub.map _), h.distinct.sublist ((hsub.cons_cons _).map _),
      h.issued, (hsub.map _).trans h.ids, fun u hu => h.strings u (hsub.subset hu), h.owner⟩
    have hpos : 0 < s.table.userlist.length := length_pos_of_mem hmem
    have hone : (1 : UInt64) ≤ s.table.userCount := by
      rw [UInt64.le_iff_toNat_le, h.count]
      exact hpos
    show (s.table.userCount - 1).toNat = (s.table.userlist.eraseP p).length
    rw [UInt64.toNat_sub_of_le _ _ hone, h.count, hlength]
    rfl

/-- An addition that is not refused gives the next id to a user with a new name and a new
key. -/
theorem add {name : Bytes} {hash : StoredHash} (uuid : Uuid)
    (hroom : s.table.autoIncrement.toNat + 1 < 2 ^ 64) (hnul : (0 : UInt8) ∉ name)
    (hname : s.table.findName name = none) (hhash : s.table.findPubkeyHash hash = none) :
    Sound ⟨{ s.table with
      autoIncrement := s.table.autoIncrement + 1
      userCount := s.table.userCount + 1
      userlist := s.table.userlist ++
        [⟨name.take maxNamelen, s.table.autoIncrement + 1, uuid, hash⟩] },
      s.issued ++ [s.table.autoIncrement + 1]⟩ := by
  have hauto : (s.table.autoIncrement + 1).toNat = s.table.autoIncrement.toNat + 1 := by
    rw [UInt64.toNat_add]
    exact Nat.mod_eq_of_lt hroom
  have hcount : (s.table.userCount + 1).toNat = s.table.userCount.toNat + 1 := by
    rw [UInt64.toNat_add]
    refine Nat.mod_eq_of_lt ?_
    have hle := h.length_userlist_le
    rw [h.count]
    exact Nat.lt_of_le_of_lt (Nat.succ_le_succ hle) hroom
  refine ⟨?_, ?_, ?_, ?_, ?_, ?_, h.owner⟩
  · rw [hcount, h.count, length_append, length_singleton]
  · rw [findName, find?_eq_none] at hname
    rw [map_append, map_singleton, ← concat_eq_append, nodup_concat]
    refine ⟨?_, h.names⟩
    intro hmem
    obtain ⟨other, hother, hsame⟩ := mem_map.mp hmem
    rw [take_take, Nat.min_self] at hsame
    exact hname other hother (decide_eq_true hsame)
  · rw [findPubkeyHash_eq, find?_eq_none] at hhash
    have hentries : ∀ user : User StoredHash, s.table.owner :: (s.table.userlist ++ [user]) =
        s.table.entries ++ [user] := fun user => rfl
    unfold UserTable.Distinct entries
    rw [hentries, map_append, map_singleton, ← concat_eq_append,
      nodup_concat]
    refine ⟨?_, h.distinct⟩
    intro hmem
    obtain ⟨other, hother, hsame⟩ := mem_map.mp hmem
    exact hhash other hother (decide_eq_true hsame)
  · rw [map_append, h.issued, map_singleton, hauto, range'_1_concat, Nat.add_comm]
  · rw [map_append]
    exact h.ids.append (List.Sublist.refl _)
  · intro user huser
    obtain hold | hnew := mem_append.mp huser
    · exact h.strings user hold
    · obtain rfl := mem_singleton.mp hnew
      exact ⟨length_take_le _ _, fun hmem => hnul (mem_of_mem_take hmem)⟩

end

end Sound

/-- An addition has an id left to give, and a name that is a C string. -/
def Admits (s : TableRun) (call : TableCall) : Prop :=
  (call.isAdd → s.table.autoIncrement.toNat + 1 < 2 ^ 64) ∧ call.NameIsString

theorem Sound.step (h : s.Sound) {call : TableCall} (hcall : s.Admits call) :
    (s.step hashes call).Sound := by
  cases call with
  | add name pubkey uuid =>
    unfold TableRun.step hashStep addHash
    cases hname : s.table.findName name with
    | some user => simpa [hname] using h
    | none =>
      cases hhash : s.table.findPubkeyHash (hashes.hashGenerate pubkey) with
      | some user => simpa [hname, hhash] using h
      | none =>
        have hadd := h.add uuid (hcall.1 rfl) hcall.2 hname hhash
        simpa [hname, hhash] using hadd
  | removeUsername name =>
    have hremove := h.remove fun user => user.name.take maxNamelen = name.take maxNamelen
    simpa [TableRun.step, hashStep, removeUsername] using hremove
  | removePubkey pubkey =>
    cases hkey : hashes.cryptoHashPubkey pubkey with
    | none => simpa [TableRun.step, hashStep, hkey] using h
    | some hash =>
      have hremove := h.remove fun user => user.pubkeyHash = hash
      simpa [TableRun.step, hashStep, removeHash, hkey] using hremove

theorem length_issued_step_le (hashes : KeyHashes StoredHash) (s : TableRun) (call : TableCall) :
    (s.step hashes call).issued.length ≤ s.issued.length + if call.isAdd then 1 else 0 := by
  rw [step, length_append]
  cases call with
  | add name pubkey uuid =>
    have hone : ∀ id : Option UInt64, id.toList.length ≤ 1 := by
      intro id
      cases id <;> simp
    exact Nat.add_le_add_left (hone _) _
  | removeUsername name | removePubkey pubkey => exact le_rfl

theorem Sound.meets_admits (h : s.Sound) (calls : List TableCall)
    (hnames : ∀ call ∈ calls, call.NameIsString)
    (hadds : s.issued.length + calls.countP TableCall.isAdd < 2 ^ 64) :
    Meets (TableRun.step hashes) Admits s calls := by
  induction calls generalizing s with
  | nil => trivial
  | cons call calls ih =>
    rw [countP_cons] at hadds
    have hadmits : s.Admits call := by
      refine ⟨fun hadd => ?_, hnames call mem_cons_self⟩
      rw [if_pos hadd] at hadds
      rw [← h.length_issued]
      omega
    have hstep := length_issued_step_le hashes s call
    refine ⟨hadmits, ih (h.step hadmits) ?_ ?_⟩
    · exact fun other hother => hnames other (mem_cons_of_mem call hother)
    · omega

/-- Along every run of additions and removals on the table of a new volume, names, keys and
ids are used once, no user has the key or the id of the owner, and the table is stored and
read back as it is. -/
theorem userTable_consistent (hashes : KeyHashes StoredHash) (ownerHash : StoredHash)
    (calls : List TableCall) (hnames : ∀ call ∈ calls, call.NameIsString)
    (hadds : calls.countP TableCall.isAdd < 2 ^ 64) :
    Always (step hashes) Consistent (create ownerHash) calls := by
  have hmeets : Meets (step hashes) Admits (create ownerHash) calls := by
    refine (sound_create ownerHash).meets_admits calls hnames ?_
    simpa [create] using hadds
  have hsound : Always (step hashes) Sound (create ownerHash) calls :=
    always_of_meets (fun _ _ h hcall => h.step hcall) (sound_create ownerHash) hmeets
  exact hsound.mono (P := Sound) fun _ h => h.consistent

/-- The hashes of a small library: the sum of the bytes. -/
def sumHashes : KeyHashes StoredHash :=
  ⟨fun text => BitVec.ofNat 256 (text.map UInt8.toNat).sum,
    fun text => some (BitVec.ofNat 256 (text.map UInt8.toNat).sum)⟩

/-- Two users are enrolled and the first is removed; its name and its key are then taken by
a third user, which is given a new id. -/
theorem reenrolled_consistent :
    let calls : List TableCall :=
      [.add [97] [1] 1, .add [98] [2] 2, .removeUsername [97], .add [97] [1] 3]
    Always (step sumHashes) Consistent (create 9) calls ∧
      (calls.foldl (step sumHashes) (create 9)).table.userlist.map User.userId = [2, 3] := by
  intro calls
  refine ⟨userTable_consistent sumHashes 9 calls ?_ (by decide), by decide⟩
  intro call hcall
  simp only [calls, mem_cons, not_mem_nil, or_false] at hcall
  obtain rfl | rfl | rfl | rfl := hcall <;> simp [TableCall.NameIsString]

end TableRun

end Nexus.Users
