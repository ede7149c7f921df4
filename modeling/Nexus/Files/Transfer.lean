import Nexus.Fs.Filenode
import Nexus.Lib.Codec
import Nexus.Lib.Stream

/-!
# Transfers of file data

The contents of a file are encrypted and decrypted chunk by chunk (`file_crypto.c`).
A transfer seeks to a chunk and is then updated with data until the chunk is full.
Several transfers of one file can be open at a time; they share its filenode.

The data itself never stays in the enclave: what a decryption is given is whatever
the caller supplies.
-/

namespace Nexus.Files

open Stream Codec

/-- `global_chunk_size`. -/
def globalChunkSize : Nat := 2 ^ Filenode.globalLog2chunkSize

/-- `nexus_crypto_mode_t`. -/
inductive CryptoMode where
  | encrypt
  | decrypt
  deriving DecidableEq

/-- `min` of `nexus_util.h`: both sizes and the result go through an `int`. -/
def minInt (a b : Nat) : Nat :=
  (BitVec.ofInt 64 (min (BitVec.ofNat 32 a).toInt (BitVec.ofNat 32 b).toInt)).toNat

/-- GCM without associated data: a keystream, and a mac of the blocks of the ciphertext and
its length. -/
structure Gcm where
  keystream : BitVec 128 → BitVec 128 → Nat → UInt8
  mac : BitVec 128 → BitVec 128 → Bytes → Nat → Mac

/-- The bytes of the blocks that a piece takes. -/
def blockBytes (length : Nat) : Nat := (length + 15) / 16 * 16

/-- The blocks of a ciphertext: each call of `mbedtls_gcm_update` begins a new one, and the
last one of a call is filled with zeros. -/
def blocks (pieces : List Bytes) : Bytes :=
  pieces.flatMap fun piece => padTo (blockBytes piece.length) piece

/-- `mbedtls_gcm_finish`. -/
def Gcm.tag (g : Gcm) (key iv : BitVec 128) (pieces : List Bytes) : Mac :=
  g.mac key iv (blocks pieces) pieces.flatten.length

/-- The number of bytes that `mbedtls_gcm_update` takes at most, over all calls. -/
def gcmMaxLength : Nat := 0xFFFFFFFE0

/-- `struct nexus_data_buf`: the state of a GCM computation. -/
structure DataBuf where
  key : BitVec 128
  iv : BitVec 128
  /-- The ciphertext so far, call by call. -/
  pieces : List Bytes
  deriving DecidableEq

/-- `struct data_xfer_context`; `crypto_context` points to a chunk of the filenode. -/
structure XferContext where
  mode : CryptoMode
  offset : Nat
  chunkLeft : Nat
  cryptoContext : Option Nat
  dataBuffer : Option DataBuf
  deriving DecidableEq

/-- A file, and the transfers that are open on it. -/
structure State where
  filenode : Filenode
  /-- The filenode in the datastore. -/
  stored : Filenode
  xferTable : Nat → Option XferContext
  xferCounter : Nat

/-- `nexus_crypto_ctx_generate`, for the key and the iv that are drawn. -/
def cryptoCtxGenerate (drawn : BitVec 128 × BitVec 128) : ChunkEntry := ⟨drawn.1, drawn.2, 0⟩

/-- `filenode_get_chunk`: the number of the chunk and its context, which is drawn anew
if asked to. -/
def filenodeGetChunk (f : Filenode) (offset : Nat) (regenerate : Bool)
    (drawn : BitVec 128 × BitVec 128) : Option (Filenode × Nat × ChunkEntry) :=
  let chunkNum := f.getChunkNumber offset
  match f.chunkList[chunkNum]? with
  | none => none
  | some entry =>
    if regenerate then
      let entry := cryptoCtxGenerate drawn
      some ({ f with chunkList := f.chunkList.set chunkNum entry }, chunkNum, entry)
    else some (f, chunkNum, entry)

/-- `filenode_update_encrypted_pos`. -/
def filenodeUpdateEncryptedPos (f : Filenode) (pos : Nat) : Filenode :=
  if pos > f.encryptedLength then { f with encryptedLength := pos } else f

theorem filenodeUpdateEncryptedPos_eq (f : Filenode) (pos : Nat) :
    filenodeUpdateEncryptedPos f pos = { f with encryptedLength := max f.encryptedLength pos } := by
  unfold filenodeUpdateEncryptedPos
  split
  next hlt => rw [Nat.max_eq_right (Nat.le_of_lt hlt)]
  next hle => rw [Nat.max_eq_left (Nat.le_of_not_lt hle)]

namespace State

def putContext (s : State) (id : Nat) (x : XferContext) : State :=
  { s with xferTable := Function.update s.xferTable id (some x) }

/-- `file_crypto_new`: the context is zeroed. -/
def fileCryptoNew (s : State) (mode : CryptoMode) : State × Nat :=
  ({ s with
      xferTable := Function.update s.xferTable (s.xferCounter + 1) (some ⟨mode, 0, 0, none, none⟩)
      xferCounter := s.xferCounter + 1 },
    s.xferCounter + 1)

/-- `ecall_fs_file_encrypt_start`, once the file is open and the access is granted. -/
def fileEncryptStart (s : State) (filesize : Nat) (drawn : Nat → BitVec 128 × BitVec 128) :
    State × Nat :=
  { s with filenode := s.filenode.setFilesize filesize (cryptoCtxGenerate ∘ drawn) }.fileCryptoNew
    .encrypt

/-- `ecall_fs_file_decrypt_start`, likewise. -/
def fileDecryptStart (s : State) : State × Nat := s.fileCryptoNew .decrypt

/-- `ecall_fs_truncate`, likewise; `ok` is whether the filenode is stored. -/
def truncate (s : State) (size : Nat) (drawn : Nat → BitVec 128 × BitVec 128) (ok : Bool) : State :=
  let f := s.filenode.setFilesize size (cryptoCtxGenerate ∘ drawn)
  { s with filenode := f, stored := if ok then f else s.stored }

/-- `__setup_data_buffer`. -/
def setupDataBuffer (s : State) (id : Nat) (x : XferContext) (offset : Nat)
    (drawn : BitVec 128 × BitVec 128) : State × Bool :=
  match filenodeGetChunk s.filenode offset (x.mode = .encrypt) drawn with
  | none => (s.putContext id { x with cryptoContext := none }, false)
  | some (f, chunkNum, entry) =>
    ({ s with filenode := f }.putContext id
      { x with
        cryptoContext := some chunkNum
        dataBuffer := some ⟨entry.key, entry.iv, []⟩
        offset
        chunkLeft := minInt (f.filesize - offset) globalChunkSize }, true)

/-- `file_crypto_seek`. -/
def fileCryptoSeek (s : State) (id offset : Nat) (drawn : BitVec 128 × BitVec 128) :
    State × Bool :=
  match s.xferTable id with
  | none => (s, false)
  | some x =>
    if x.chunkLeft ≠ 0 then (s, false)
    else if offset % globalChunkSize ≠ 0 then (s, false)
    else if offset > s.filenode.filesize then (s, false)
    else s.setupDataBuffer id x offset drawn

/-- The mac of the chunk that the context points to; there is none if the pointer is
`NULL` or the chunk is gone. -/
def chunkMac (s : State) (x : XferContext) : Option Mac :=
  x.cryptoContext.bind fun i => s.filenode.chunkList[i]?.map ChunkEntry.mac

/-- Write the mac of the chunk that the context points to. -/
def setChunkMac (s : State) (x : XferContext) (mac : Mac) : Option State :=
  x.cryptoContext.bind fun i => s.filenode.chunkList[i]?.map fun entry =>
    { s with filenode :=
      { s.filenode with chunkList := s.filenode.chunkList.set i { entry with mac } } }

/-- `__flush_data_buffer`; `none` is an access to a chunk that is not there. -/
def flushDataBuffer (g : Gcm) (s : State) (id : Nat) (x : XferContext) (buf : DataBuf) :
    Option (State × Bool) :=
  let mac := g.tag buf.key buf.iv buf.pieces
  let x' := { x with cryptoContext := none, dataBuffer := none }
  match x.mode with
  | .encrypt =>
    (s.setChunkMac x mac).map fun s =>
      ({ s with filenode := filenodeUpdateEncryptedPos s.filenode x.offset }.putContext id x', true)
  | .decrypt =>
    -- the chunk is only verified if more has been encrypted behind it
    if x.offset < s.filenode.encryptedLength then
      (s.chunkMac x).map fun expected => (s.putContext id x', decide (expected = mac))
    else some (s.putContext id x', true)

/-- `nexus_data_buf_write`: what it puts out, and the computation afterwards. -/
def dataBufWrite (g : Gcm) (mode : CryptoMode) (buf : DataBuf) (input : Bytes) : Bytes × DataBuf :=
  let output := mask (g.keystream buf.key buf.iv) (blocks buf.pieces).length input
  (output, { buf with pieces := buf.pieces ++ [if mode = .encrypt then output else input] })

/-- The number of bytes that an update takes, if `mbedtls_gcm_update` accepts it. -/
def updateSize (x : XferContext) (buf : DataBuf) (input : Bytes) : Option Nat :=
  let nbytes := minInt input.length x.chunkLeft
  if buf.pieces.flatten.length + nbytes ≤ gcmMaxLength then some nbytes else none

/-- `file_crypto_update`, for an input buffer that holds `size` bytes: the state, whether
it returns 0, and the bytes that it has put out. -/
def fileCryptoUpdate (g : Gcm) (s : State) (id : Nat) (input : Bytes) :
    Option (State × Bool × Bytes) :=
  match s.xferTable id with
  | none => some (s, false, [])
  | some x =>
    match x.dataBuffer with
    | none => some (s, false, [])
    | some buf =>
      match updateSize x buf input with
      | none => some (s, false, [])
      | some nbytes =>
        let written := dataBufWrite g x.mode buf (input.take nbytes)
        let x := { x with
          dataBuffer := some written.2
          chunkLeft := x.chunkLeft - nbytes
          offset := x.offset + nbytes }
        if x.chunkLeft = 0 then
          (flushDataBuffer g s id x written.2).map fun r => (r.1, r.2, written.1)
        else some (s.putContext id x, true, written.1)

/-- `file_crypto_finish`; `ok` is whether the filenode is stored. -/
def fileCryptoFinish (s : State) (id : Nat) (ok : Bool) : State × Bool :=
  match s.xferTable id with
  | none => (s, false)
  | some _ =>
    ({ s with
        stored := if ok then s.filenode else s.stored
        xferTable := Function.update s.xferTable id none }, ok)

end State

/-! ## Sizes and blocks -/

theorem toInt_ofNat_cases (n : Nat) :
    (BitVec.ofNat 32 n).toInt = n % 2 ^ 32 ∧ n % 2 ^ 32 < 2 ^ 31 ∨
      (BitVec.ofNat 32 n).toInt < 0 ∧ -2 ^ 31 ≤ (BitVec.ofNat 32 n).toInt := by
  rw [BitVec.toInt_eq_toNat_cond, BitVec.toNat_ofNat]
  split <;> omega

theorem minInt_of_lt {a b : Nat} (ha : a < 2 ^ 31) (hb : b < 2 ^ 31) : minInt a b = min a b := by
  have hmin : min (BitVec.ofNat 32 a).toInt (BitVec.ofNat 32 b).toInt = (min a b : Nat) := by
    simp only [BitVec.toInt_eq_toNat_cond, BitVec.toNat_ofNat]
    omega
  rw [minInt, hmin, BitVec.ofInt_natCast, BitVec.toNat_ofNat]
  omega

/-- A negative result is a large size; any other one is not above the two sizes. -/
theorem minInt_le (a b : Nat) :
    minInt a b ≤ a ∧ minInt a b ≤ b ∨
      2 ^ 63 ≤ minInt a b ∧ 2 ^ 31 ≤ minInt a b % 2 ^ 32 := by
  have ha := toInt_ofNat_cases a
  have hb := toInt_ofNat_cases b
  rw [minInt, BitVec.toNat_ofInt]
  omega

theorem minInt_of_negative {a b : Nat} (h : 2 ^ 31 ≤ a % 2 ^ 32 ∨ 2 ^ 31 ≤ b % 2 ^ 32) :
    2 ^ 63 ≤ minInt a b := by
  have ha := toInt_ofNat_cases a
  have hb := toInt_ofNat_cases b
  rw [minInt, BitVec.toNat_ofInt]
  omega

theorem State.updateSize_le {x : XferContext} {buf : DataBuf} {input : Bytes} {nbytes : Nat}
    (h : State.updateSize x buf input = some nbytes) :
    nbytes ≤ input.length ∧ nbytes ≤ x.chunkLeft := by
  unfold State.updateSize at h
  dsimp only at h
  split at h
  next hle =>
    cases h
    obtain hsmall | hlarge := minInt_le input.length x.chunkLeft
    · exact hsmall
    · unfold gcmMaxLength at hle
      omega
  · cases h

theorem State.updateSize_negative {x : XferContext} {buf : DataBuf} {input : Bytes}
    (hneg : 2 ^ 31 ≤ x.chunkLeft % 2 ^ 32) : State.updateSize x buf input = none := by
  have hlarge := minInt_of_negative (a := input.length) (.inr hneg)
  rw [State.updateSize, if_neg (by unfold gcmMaxLength; omega)]

theorem State.updateSize_eq {x : XferContext} {buf : DataBuf} {input : Bytes}
    (hinput : input.length < 2 ^ 31)
    (hroom : buf.pieces.flatten.length + x.chunkLeft ≤ globalChunkSize) :
    State.updateSize x buf input = some (min input.length x.chunkLeft) := by
  have hcs : globalChunkSize = 2 ^ 20 := rfl
  rw [State.updateSize, minInt_of_lt hinput (by omega), if_pos (by unfold gcmMaxLength; omega)]

end Nexus.Files
