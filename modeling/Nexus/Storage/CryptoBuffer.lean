import Nexus.Basic
import Nexus.Lib.Codec

/-!
# Encrypted buffers

Every metadata object is kept in the untrusted datastore as a header and a
ciphertext (`crypto_buffer.c`).  `nexus_crypto_buf_put` draws a new key, wraps it
for the uuid of the object under the volume key, and encrypts the object with
the header, its mac field zeroed, as associated data.

The cryptography is ideal.  A `Vault` is the record of all puts of a volume:
unwrapping succeeds only for a wrapped key that a put made for the same uuid
(`nexus_key_wrapped.c`), and decryption under a key only for what was encrypted
under it.  Two puts never share a key, a mac, or a wrapped key for one uuid.
The buffer that a load reads is any list of bytes.
-/

namespace Nexus

open Codec List

/-! ## The header -/

/-- `NEXUS_MAGIC_V1`. -/
def nexusMagicV1 : Nat := 0x6e780001

/-- `GCM128_WRAPPED_KEY_SIZE`. -/
def gcm128WrappedKeySize : Nat := 16 + 16

/-- `GCM128_IV_SIZE`. -/
def gcm128IvSize : Nat := 16

/-- `NEXUS_MAC_SIZE`. -/
def nexusMacSize : Nat := 16

/-- The offset of the mac in `struct crypto_buf_hdr`. -/
def cryptoBufMacOffset : Nat := 4 + 4 + 4 + gcm128WrappedKeySize + gcm128IvSize

/-- `__get_header_len`. -/
def getHeaderLen : Nat := cryptoBufMacOffset + nexusMacSize

/-- `CRYPTOBUF_INVALID_VERSION`. -/
def cryptobufInvalidVersion : BitVec 32 := BitVec.allOnes 32

/-- The bytes of a packed field. -/
def field (offset size : Nat) (bs : Bytes) : Bytes := (bs.drop offset).take size

/-- A version as a `uint32_t` field. -/
def versionField (bs : Bytes) : BitVec 32 := BitVec.ofNat 32 (leNat (field 4 4 bs))

/-- The version that `nexus_crypto_buf_create` reads off the buffer, before
anything is authenticated. -/
def cryptoBufVersion (external : Bytes) : BitVec 32 :=
  if getHeaderLen ≤ external.length then versionField external
  else if external.length = 0 then 0
  else cryptobufInvalidVersion

/-! ## Puts -/

/-- A `GCM128_KEY_SIZE` key. -/
abbrev Key := BitVec 128

/-- What `nexus_crypto_ctx_generate` and the encryption of `n` bytes draw. -/
structure CryptoCtx (n : Nat) where
  key : Key
  /-- The key wrapped for the uuid of the buffer. -/
  ekey : Bytes
  iv : Bytes
  ciphertext : Bytes
  mac : Mac
  ekeySize : ekey.length = gcm128WrappedKeySize
  ivSize : iv.length = gcm128IvSize
  ciphertextSize : ciphertext.length = n

/-- One encryption that `nexus_crypto_buf_put` made. -/
structure Put where
  uuid : Uuid
  version : BitVec 32
  plaintext : Bytes
  ctx : CryptoCtx plaintext.length

/-- `nexus_crypto_buf_put`, up to the call of the buffer layer: the version is
incremented first. -/
def nexusCryptoBufPut (uuid : Uuid) (version : BitVec 32) (plaintext : Bytes)
    (ctx : CryptoCtx plaintext.length) : Put where
  uuid := uuid
  version := version + 1
  plaintext := plaintext
  ctx := ctx

namespace Put

/-- The mac of the buffer. -/
def mac (p : Put) : Mac := p.ctx.mac

/-- The header up to its mac. -/
def fields (p : Put) : Bytes :=
  le 4 nexusMagicV1 ++ le 4 p.version.toNat ++ le 4 p.plaintext.length ++ p.ctx.ekey ++ p.ctx.iv

/-- The associated data: the header with a zero mac. -/
def aad (p : Put) : Bytes := p.fields ++ List.replicate nexusMacSize 0

/-- The buffer that is handed to the buffer layer. -/
def buffer (p : Put) : Bytes := p.fields ++ le 16 p.mac.toNat ++ p.ctx.ciphertext

@[simp] theorem length_fields (p : Put) : p.fields.length = cryptoBufMacOffset := by
  simp [fields, cryptoBufMacOffset, p.ctx.ekeySize, p.ctx.ivSize]
  omega

theorem length_buffer (p : Put) : p.buffer.length = getHeaderLen + p.plaintext.length := by
  simp [buffer, p.ctx.ciphertextSize, getHeaderLen, nexusMacSize]
  omega

end Put

/-- The puts of a volume. -/
structure Vault where
  puts : List Put
  keys : (puts.map fun p => p.ctx.key).Nodup
  macs : (puts.map Put.mac).Nodup
  /-- Different keys are wrapped differently for one uuid. -/
  wraps : (puts.map fun p => (p.uuid, p.ctx.ekey)).Nodup

/-! ## Gets -/

/-- `__unwrap_key`. -/
def unwrapKey (v : Vault) (uuid : Uuid) (ekey : Bytes) : Option Key :=
  (v.puts.find? fun p => p.uuid = uuid ∧ p.ctx.ekey = ekey).map fun p => p.ctx.key

/-- `crypto_gcm_decrypt`. -/
def cryptoGcmDecrypt (v : Vault) (key : Key) (iv aad ciphertext : Bytes) (mac : Mac) :
    Option Bytes :=
  (v.puts.find? fun p => p.ctx.key = key ∧ p.ctx.iv = iv ∧ p.aad = aad ∧
    p.ctx.ciphertext = ciphertext ∧ p.mac = mac).map Put.plaintext

/-- `__parse_header`, up to the crypto context.  A buffer shorter than the header
is refused too: the size that is left wraps around and is above any `uint32_t`. -/
def parseHeader (external : Bytes) : Option Bytes :=
  if getHeaderLen ≤ external.length ∧ leNat (field 0 4 external) = nexusMagicV1 ∧
      leNat (field 8 4 external) = external.length - getHeaderLen then
    some (external.take cryptoBufMacOffset)
  else none

/-- `nexus_crypto_buf_get` of a buffer that was read: the plaintext and the mac. -/
def nexusCryptoBufGet (v : Vault) (uuid : Uuid) (external : Bytes) : Option (Bytes × Mac) := do
  let hdr ← parseHeader external
  let key ← unwrapKey v uuid (field 12 gcm128WrappedKeySize external)
  let mac := BitVec.ofNat 128 (leNat (field cryptoBufMacOffset nexusMacSize external))
  let plaintext ← cryptoGcmDecrypt v key
    (field (12 + gcm128WrappedKeySize) gcm128IvSize external)
    (hdr ++ List.replicate nexusMacSize 0) (external.drop getHeaderLen) mac
  some (plaintext, mac)

/-! ## What a get accepts -/

variable {external : Bytes} {p : Put} {v : Vault}

theorem take_append_field_append_drop :
    external.take cryptoBufMacOffset ++ field cryptoBufMacOffset nexusMacSize external ++
      external.drop getHeaderLen = external := by
  rw [append_assoc, field, getHeaderLen, ← drop_drop, take_append_drop,
    take_append_drop]

theorem eq_buffer_iff (hlen : getHeaderLen ≤ external.length) :
    external = p.buffer ↔
      external.take cryptoBufMacOffset = p.fields ∧
      BitVec.ofNat 128 (leNat (field cryptoBufMacOffset nexusMacSize external)) = p.mac ∧
      external.drop getHeaderLen = p.ctx.ciphertext := by
  constructor
  · rintro rfl
    have hmac : field cryptoBufMacOffset nexusMacSize p.buffer = le 16 p.mac.toNat := by
      rw [field, Put.buffer, append_assoc, drop_left' p.length_fields, nexusMacSize,
        take_left' (length_le ..)]
    refine ⟨?_, ?_, ?_⟩
    · rw [Put.buffer, append_assoc, take_left' p.length_fields]
    · rw [hmac, leNat_le, Nat.mod_eq_of_lt (toNat_lt_bytes p.mac), BitVec.ofNat_toNat,
        BitVec.setWidth_eq]
    · rw [Put.buffer, drop_left']
      simp [getHeaderLen, nexusMacSize]
  · intro h
    obtain ⟨hfields, hmac, hciphertext⟩ := h
    have hsize : (field cryptoBufMacOffset nexusMacSize external).length = nexusMacSize := by
      rw [field, length_take, length_drop]
      have : getHeaderLen = cryptoBufMacOffset + nexusMacSize := rfl
      omega
    have hlt := leNat_lt (field cryptoBufMacOffset nexusMacSize external)
    have hbytes : field cryptoBufMacOffset nexusMacSize external = le 16 p.mac.toNat := by
      rw [hsize] at hlt
      rw [← hmac, BitVec.toNat_ofNat, Nat.mod_eq_of_lt (hlt.trans_eq (by norm_num [nexusMacSize]))]
      exact (le_leNat hsize).symm
    rw [Put.buffer, ← hfields, ← hbytes, ← hciphertext, take_append_field_append_drop]

theorem Vault.eq_of_mac {q : Put} (hp : p ∈ v.puts) (hq : q ∈ v.puts) (h : p.mac = q.mac) : p = q :=
  inj_on_of_nodup_map v.macs hp hq h

theorem nexusCryptoBufGet_sound {uuid : Uuid} {plaintext : Bytes} {mac : Mac}
    (h : nexusCryptoBufGet v uuid external = some (plaintext, mac)) :
    ∃ p ∈ v.puts, p.uuid = uuid ∧ p.plaintext = plaintext ∧ p.mac = mac ∧
      external = p.buffer := by
  simp only [nexusCryptoBufGet, Option.bind_eq_bind, Option.bind_eq_some_iff, Option.some.injEq,
    Prod.mk.injEq] at h
  obtain ⟨hdr, hparse, key, hkey, plaintext', hdecrypt, rfl, rfl⟩ := h
  have hhdr : getHeaderLen ≤ external.length ∧ external.take cryptoBufMacOffset = hdr := by
    unfold parseHeader at hparse
    split at hparse
    next hchecks =>
      exact ⟨hchecks.1, Option.some.inj hparse⟩
    · contradiction
  obtain ⟨wrapper, hwrapper, rfl⟩ := Option.map_eq_some_iff.mp hkey
  obtain ⟨p, hp, rfl⟩ := Option.map_eq_some_iff.mp hdecrypt
  have hmem := mem_of_find?_eq_some hp
  have hmatch := find?_some hp
  have hwmatch := find?_some hwrapper
  simp only [decide_eq_true_eq] at hmatch hwmatch
  obtain ⟨hkeys, -, haad, hciphertext, hmac⟩ := hmatch
  -- keys are not reused, so the put that wrapped the key is the one that used it
  obtain rfl : p = wrapper :=
    inj_on_of_nodup_map v.keys hmem (mem_of_find?_eq_some hwrapper) hkeys
  refine ⟨p, hmem, hwmatch.1, rfl, hmac, ?_⟩
  rw [eq_buffer_iff hhdr.1]
  refine ⟨?_, hmac.symm, hciphertext.symm⟩
  rw [hhdr.2]
  exact (append_cancel_right haad).symm

theorem versionField_buffer (p : Put) : versionField p.buffer = p.version := by
  have hfield : field 4 4 p.buffer = le 4 p.version.toNat := by
    simp only [field, Put.buffer, Put.fields, append_assoc]
    rw [drop_left' (length_le ..), take_left' (length_le ..)]
  have hlt : p.version.toNat < 256 ^ 4 := p.version.isLt
  rw [versionField, hfield, leNat_le, Nat.mod_eq_of_lt hlt, BitVec.ofNat_toNat, BitVec.setWidth_eq]

theorem cryptoBufVersion_buffer (p : Put) : cryptoBufVersion p.buffer = p.version := by
  rw [cryptoBufVersion, if_pos (by rw [p.length_buffer]; exact Nat.le_add_right ..),
    versionField_buffer]

theorem field_append {offset size : Nat} {xs ys : Bytes} (hx : xs.length = offset)
    (hy : ys.length = size) (rest : Bytes) : field offset size (xs ++ (ys ++ rest)) = ys := by
  rw [field, drop_left' hx, take_left' hy]

theorem find?_eq_some_of_unique {α : Type} {l : List α} {P : α → Bool} {a : α} (ha : a ∈ l)
    (hP : P a = true) (hunique : ∀ b ∈ l, P b = true → b = a) : l.find? P = some a := by
  cases hfind : l.find? P with
  | none => exact absurd hP (find?_eq_none.mp hfind a ha)
  | some b => rw [hunique b (mem_of_find?_eq_some hfind) (find?_some hfind)]

/-- The buffer of a put is read back, unless the object has 4 GiB or more. -/
theorem nexusCryptoBufGet_buffer (hp : p ∈ v.puts) (hsize : p.plaintext.length < 2 ^ 32) :
    nexusCryptoBufGet v p.uuid p.buffer = some (p.plaintext, p.mac) := by
  have hlen := p.length_buffer
  obtain ⟨hfields, hmac, hciphertext⟩ :=
    (eq_buffer_iff (hlen ▸ Nat.le_add_right ..)).mp (rfl : p.buffer = p.buffer)
  have hekey : field 12 gcm128WrappedKeySize p.buffer = p.ctx.ekey := by
    simp only [Put.buffer, Put.fields, append_assoc]
    rw [← append_assoc, ← append_assoc]
    exact field_append (by simp) p.ctx.ekeySize _
  have hiv : field (12 + gcm128WrappedKeySize) gcm128IvSize p.buffer = p.ctx.iv := by
    simp only [Put.buffer, Put.fields, append_assoc]
    rw [← append_assoc, ← append_assoc, ← append_assoc]
    exact field_append (by simp [p.ctx.ekeySize]; omega) p.ctx.ivSize _
  have hparse : parseHeader p.buffer = some p.fields := by
    have hmagic : leNat (field 0 4 p.buffer) = nexusMagicV1 := by
      simp only [Put.buffer, Put.fields, append_assoc]
      rw [← nil_append (le 4 nexusMagicV1 ++ _), field_append length_nil (length_le ..),
        leNat_le]
      rfl
    have hlength : leNat (field 8 4 p.buffer) = p.plaintext.length := by
      simp only [Put.buffer, Put.fields, append_assoc]
      rw [← append_assoc, field_append (by simp) (length_le ..), leNat_le]
      exact Nat.mod_eq_of_lt hsize
    rw [parseHeader, hmagic, hlength, hfields, hlen, if_pos]
    exact ⟨Nat.le_add_right .., rfl, (Nat.add_sub_cancel_left ..).symm⟩
  have hunwrap : unwrapKey v p.uuid p.ctx.ekey = some p.ctx.key := by
    rw [unwrapKey, find?_eq_some_of_unique hp (by simp)]
    · rfl
    · intro q hq hmatch
      have heq : q.uuid = p.uuid ∧ q.ctx.ekey = p.ctx.ekey := of_decide_eq_true hmatch
      exact inj_on_of_nodup_map v.wraps hq hp (Prod.ext heq.1 heq.2)
  have hdecrypt : cryptoGcmDecrypt v p.ctx.key p.ctx.iv p.aad p.ctx.ciphertext p.mac
      = some p.plaintext := by
    rw [cryptoGcmDecrypt, find?_eq_some_of_unique hp (by simp)]
    · rfl
    · intro q hq hmatch
      exact inj_on_of_nodup_map v.keys hq hp (of_decide_eq_true hmatch).1
  have haad : p.fields ++ List.replicate nexusMacSize 0 = p.aad := rfl
  simp only [nexusCryptoBufGet, hparse, hekey, hunwrap, hiv, hciphertext, hmac, haad, hdecrypt,
    Option.bind_eq_bind, Option.bind_some]

end Nexus
