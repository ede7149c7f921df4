import Nexus.Users.Session

/-!
# Who gets the volume key

`ecall_exchange_rootkey` of `instance.c` encrypts the loaded volume key to a public key
of another enclave.  It wants a quote that names the same enclave and carries the hash
of the public key.  It does not want a login, and nothing checks who signed the quote.

A challenge already loads the volume key, so a caller that asked for a challenge can
have the key encrypted to a key of its own.  `rootkey_released_iff` says for every run
when the key is only given out after a login.  Whether there was a login is read off the
history of the calls, since no global of the enclave has it; the invariant `Traced` says
that a key loaded without a login is the one of a challenge that is still pending.
-/

namespace Nexus.Users

open Runs

/-- The cryptography of the exchange. -/
structure Box where
  sha512 : Bytes → Bytes
  /-- `crypto_ecdh_encrypt`: the public key, the secret key, the volume key, the nonce. -/
  ecdhEncrypt : Bytes → Bytes → BitVec 128 → Bytes → Option Bytes

/-- The fields of a quote or a report that are compared. -/
structure ReportBody where
  mrEnclave : Bytes
  mrSigner : Bytes
  reportData : Bytes

/-- The arguments of an exchange and what its helpers return. -/
structure Exchange where
  otherQuote : ReportBody
  otherPubkey : Bytes
  /-- `sgx_create_report`. -/
  ownerReport : Option ReportBody
  /-- `crypto_box_keypair`: the secret key of the ephemeral pair. -/
  ephemeral : Option Bytes
  nonce : Bytes
  /-- `__copy_to_untrusted`. -/
  copied : Bool

/-- `validate_quote_and_copy_pubkey`. -/
def validateQuoteAndCopyPubkey (box : Box) (x : Exchange) : Bool :=
  match x.ownerReport with
  | none => false
  | some owner =>
    owner.mrEnclave == x.otherQuote.mrEnclave && owner.mrSigner == x.otherQuote.mrSigner &&
      box.sha512 x.otherPubkey == x.otherQuote.reportData

/-- The result of `ecall_create_volume`'s helpers. -/
structure CreateVolume where
  /-- `nexus_enclave_volumekey_generate`. -/
  generated : Option (BitVec 128)
  /-- `supernode_create`. -/
  supernode : Bool
  /-- The other objects of the volume are created and stored. -/
  stored : Bool
  /-- `nexus_enclave_volumekey_serialize`. -/
  serialized : Bool

namespace Enclave

variable {Key Hash : Type}

/-- `ecall_exchange_rootkey`: the wrapped volume key, if it returns 0. -/
def exchangeRootkey (box : Box) (s : Enclave Key Hash) (x : Exchange) : Option Bytes :=
  match s.globalVolumekey with
  | none => none
  | some volumekey =>
    if validateQuoteAndCopyPubkey box x then
      match x.ephemeral with
      | none => none
      | some secretKey =>
        match box.ecdhEncrypt x.otherPubkey secretKey volumekey x.nonce with
        | none => none
        | some wrapped => if x.copied then some wrapped else none
    else none

/-- `ecall_create_volume`: the key of the new volume is cleared at the end. -/
def createVolume (s : Enclave Key Hash) (v : CreateVolume) : Enclave Key Hash × Bool :=
  match v.generated with
  | none => (s, false)
  | some _ =>
    ({ s with
      globalVolumekey := none
      globalSupernode := if v.supernode then none else s.globalSupernode },
      v.supernode && v.stored && v.serialized)

end Enclave

/-- The exchange is answered if this volume key is loaded: the quote names the enclave and the
public key, and no helper fails. -/
def Exchange.Acceptable (box : Box) (x : Exchange) (volumekey : BitVec 128) : Prop :=
  validateQuoteAndCopyPubkey box x = true ∧ ∃ secretKey ∈ x.ephemeral,
    box.ecdhEncrypt x.otherPubkey secretKey volumekey x.nonce ≠ none ∧ x.copied = true

theorem Enclave.isSome_exchangeRootkey_iff {Key Hash : Type} {box : Box} {s : Enclave Key Hash}
    {x : Exchange} :
    (s.exchangeRootkey box x).isSome ↔ ∃ volumekey ∈ s.globalVolumekey,
      x.Acceptable box volumekey := by
  unfold Enclave.exchangeRootkey Exchange.Acceptable
  cases s.globalVolumekey with
  | none => simp
  | some volumekey =>
    cases validateQuoteAndCopyPubkey box x with
    | false => simp
    | true =>
      cases x.ephemeral with
      | none => simp
      | some secretKey =>
        cases hwrapped : box.ecdhEncrypt x.otherPubkey secretKey volumekey x.nonce with
        | none => simp [hwrapped]
        | some wrapped => cases hcopied : x.copied <;> simp [hwrapped]

/-! ## Histories of calls -/

/-- The ecalls, as far as they concern the volume key.  All others leave it, and can at
most load the user table. -/
inductive VolumeCall (Hash : Type) where
  | challenge (c : Challenge)
  | response (r : Response Hash)
  | createVolume (v : CreateVolume)
  | exchangeRootkey (x : Exchange)
  | other (userTable : Option (Uuid × UserTable Hash))

variable {Key Hash : Type}

/-- One ecall: the enclave after it, and whether it returned 0. -/
def VolumeCall.run [DecidableEq Hash] (crypto : Crypto Key Hash) (box : Box)
    (s : Enclave Key Hash) : VolumeCall Hash → Enclave Key Hash × Bool
  | challenge c => s.authenticationChallenge crypto c
  | response r => s.authenticationResponse crypto r
  | createVolume v => s.createVolume v
  | exchangeRootkey x => (s, (s.exchangeRootkey box x).isSome)
  | other userTable => ({ s with userTableMetadata := userTable }, true)

/-- The calls so far, the last one first, and which of them returned 0. -/
abbrev History (Hash : Type) := List (VolumeCall Hash × Bool)

/-- A response or the creation of a volume has returned 0 since a volume key was loaded.  A
challenge that returns 0 loads one, and so does every volume that is created. -/
def History.loggedIn : History Hash → Bool
  | [] => false
  | (.challenge _, true) :: _ => false
  | (.response _, true) :: _ => true
  | (.createVolume v, ok) :: past => if v.generated.isSome then ok else loggedIn past
  | _ :: past => loggedIn past

/-- The volume key of the last challenge that returned 0, as long as it is not answered: no
response has got its supernode buffer since, and no volume was created. -/
def History.pendingKey : History Hash → Option (BitVec 128)
  | [] => none
  | (.challenge c, true) :: _ => c.volumekey
  | (.response r, _) :: past => if r.exterior.isSome then none else pendingKey past
  | (.createVolume v, _) :: past => if v.generated.isSome then none else pendingKey past
  | _ :: past => pendingKey past

/-- The enclave after the calls of a history. -/
structure KeyUse (Key Hash : Type) where
  enclave : Enclave Key Hash
  past : History Hash

namespace KeyUse

open History

/-- The volume key is only given out after a login. -/
def Guarded (box : Box) (k : KeyUse Key Hash) : VolumeCall Hash → Prop
  | .exchangeRootkey x => (k.enclave.exchangeRootkey box x).isSome → loggedIn k.past = true
  | _ => True

/-- Between a challenge and the response to it no exchange is asked for that the enclave
accepts.  This is a condition on the calls and on what they returned. -/
def AnsweredFirst (box : Box) (k : KeyUse Key Hash) : VolumeCall Hash → Prop
  | .exchangeRootkey x => ∀ volumekey ∈ pendingKey k.past, ¬ x.Acceptable box volumekey
  | _ => True

/-- A volume key that is loaded without a login is the one of the pending challenge. -/
def Traced (k : KeyUse Key Hash) : Prop :=
  pendingKey k.past = bif loggedIn k.past then none else k.enclave.globalVolumekey

/-- With the key traced, an exchange is guarded exactly if it does not use a pending key. -/
theorem guarded_iff_answeredFirst {box : Box} {k : KeyUse Key Hash} (h : k.Traced)
    (call : VolumeCall Hash) : k.Guarded box call ↔ k.AnsweredFirst box call := by
  cases call with
  | exchangeRootkey x =>
    simp only [Guarded, AnsweredFirst, Enclave.isSome_exchangeRootkey_iff]
    rw [h]
    cases loggedIn k.past with
    | true => simp
    | false => simp
  | _ => exact Iff.rfl

variable [DecidableEq Hash]

def start (crypto : Crypto Key Hash) : KeyUse Key Hash := ⟨.init crypto, []⟩

/-- One ecall. -/
def step (crypto : Crypto Key Hash) (box : Box) (k : KeyUse Key Hash) (call : VolumeCall Hash) :
    KeyUse Key Hash :=
  let after := call.run crypto box k.enclave
  ⟨after.1, (call, after.2) :: k.past⟩

omit [DecidableEq Hash] in
/-- A challenge loads the key that it got unsealed, if it returns 0, and else leaves the key. -/
theorem globalVolumekey_challenge (crypto : Crypto Key Hash) (s : Enclave Key Hash)
    (c : Challenge) :
    (s.authenticationChallenge crypto c).1.globalVolumekey =
      if (s.authenticationChallenge crypto c).2 then c.volumekey else s.globalVolumekey := by
  unfold Enclave.authenticationChallenge Enclave.loadAuthPubkey
  cases (if c.parses then crypto.keyFromStr c.userPubkey else none) with
  | none => simp
  | some key =>
    cases (if c.hashes then crypto.cryptoHashPubkey c.userPubkey else none) with
    | none => simp
    | some hash => cases c.volumekey <;> simp

/-- A response that fails has cleared the key, unless it could not read the supernode buffer. -/
theorem globalVolumekey_response (crypto : Crypto Key Hash) (s : Enclave Key Hash)
    (r : Response Hash) (h : (s.authenticationResponse crypto r).2 = false) :
    (s.authenticationResponse crypto r).1.globalVolumekey =
      if r.exterior.isSome then none else s.globalVolumekey := by
  revert h
  unfold Enclave.authenticationResponse
  cases r.exterior with
  | none => simp
  | some exterior =>
    dsimp only
    generalize (if s.verifies crypto exterior r then s.mountVolume r else (s, false)) = logged
    cases logged.2 <;> simp

theorem traced_step {crypto : Crypto Key Hash} {box : Box} {k : KeyUse Key Hash} (h : k.Traced)
    (call : VolumeCall Hash) : (k.step crypto box call).Traced := by
  unfold Traced at h
  cases call with
  | challenge c =>
    have hkey := globalVolumekey_challenge crypto k.enclave c
    simp only [Traced, step, VolumeCall.run]
    generalize k.enclave.authenticationChallenge crypto c = after at hkey ⊢
    obtain ⟨s, ok⟩ := after
    cases ok with
    | true => simpa [pendingKey, loggedIn] using hkey.symm
    | false =>
      have hsame : s.globalVolumekey = k.enclave.globalVolumekey := hkey
      simpa [pendingKey, loggedIn, hsame] using h
  | response r =>
    have hkey := globalVolumekey_response crypto k.enclave r
    have hread : r.exterior = none → (k.enclave.authenticationResponse crypto r).2 = false := by
      intro hexterior
      simp [Enclave.authenticationResponse, hexterior]
    simp only [Traced, step, VolumeCall.run]
    generalize k.enclave.authenticationResponse crypto r = after at hkey hread ⊢
    obtain ⟨s, ok⟩ := after
    cases hexterior : r.exterior with
    | none =>
      obtain rfl : ok = false := hread hexterior
      have hsame : s.globalVolumekey = k.enclave.globalVolumekey := by simpa [hexterior] using hkey
      simpa [pendingKey, loggedIn, hexterior, hsame] using h
    | some exterior =>
      cases ok with
      | true => simp [pendingKey, loggedIn, hexterior]
      | false =>
        have hcleared : s.globalVolumekey = none := by simpa [hexterior] using hkey
        simp [pendingKey, loggedIn, hexterior, hcleared]
  | createVolume v =>
    simp only [Traced, step, VolumeCall.run, Enclave.createVolume, pendingKey, loggedIn]
    cases v.generated with
    | none => simpa using h
    | some key => simp
  | exchangeRootkey x => simpa [Traced, step, VolumeCall.run, pendingKey, loggedIn] using h
  | other userTable => simpa [Traced, step, VolumeCall.run, pendingKey, loggedIn] using h

/-- In every run from the start of the enclave the volume key is only given out after a login,
exactly if no acceptable exchange comes between a challenge and the response to it. -/
theorem rootkey_released_iff (crypto : Crypto Key Hash) (box : Box)
    (calls : List (VolumeCall Hash)) :
    Meets (step crypto box) (Guarded box) (start crypto) calls ↔
      Meets (step crypto box) (AnsweredFirst box) (start crypto) calls :=
  meets_iff_meets (P := Traced) (fun _ call h _ => traced_step h call)
    (fun _ call h => guarded_iff_answeredFirst h call) (show Traced (start crypto) from rfl) calls

end KeyUse

/-- An exchange to run the model with: the secret is wrapped by naming the public key. -/
def toyBox : Box where
  sha512 := id
  ecdhEncrypt publicKey _ volumekey _ := some (publicKey ++ [volumekey.toNat.toUInt8])

/-- A quote that names the enclave, made up for the public key 9. -/
def madeUpExchange : Exchange where
  otherQuote := ⟨[1], [2], [9]⟩
  otherPubkey := [9]
  ownerReport := some ⟨[1], [2], []⟩
  ephemeral := some [3]
  nonce := []
  copied := true

/-- A caller with any key asks for a challenge, and has the volume key wrapped for a key of its
own. -/
theorem challenge_releases_rootkey :
    let calls : List (VolumeCall Bytes) :=
      [.challenge ⟨[6], true, true, some 7, [42]⟩, .exchangeRootkey madeUpExchange]
    ((KeyUse.step toyCrypto toyBox (KeyUse.start toyCrypto)
        (.challenge ⟨[6], true, true, some 7, [42]⟩)).enclave.exchangeRootkey toyBox
          madeUpExchange = some [9, 7]) ∧
      ¬ Meets (KeyUse.step toyCrypto toyBox) (KeyUse.Guarded toyBox) (KeyUse.start toyCrypto)
        calls := by
  refine ⟨by decide, ?_⟩
  rintro ⟨-, hguarded, -⟩
  exact absurd (hguarded (by decide)) (by decide)

end Nexus.Users
