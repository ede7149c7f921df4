import Nexus.Files.Truncation
import Nexus.Lib.OpenFile

/-!
# The untrusted side of a transfer

The backend (`file_ops.c`, `io.c`) passes offsets and data between the enclave and the
file in the datastore.  The metadata of the file stands behind its data, and a trailer
says how long both are.  Offsets and lengths go through an `int` on the way to the
enclave and through 32-bit fields in the trailer.  The calls of the system succeed.
-/

namespace Nexus.Files

open Codec

/-- The number of bytes that one `read` or `write` of Linux transfers at most. -/
def maxRwCount : Nat := 0x7ffff000

/-- The two counts are the same `int`. -/
def sameInt (a b : Nat) : Bool := BitVec.ofNat 32 a = BitVec.ofNat 32 b

/-- `__filenode_total_size`: the first sum is taken in 32 bits. -/
def filenodeTotalSize (metadataSize filedataSize : BitVec 32) : Nat :=
  (metadataSize + filedataSize).toNat + 8

/-- `struct __filenode_info`, as it stands at the end of the file. -/
def filenodeInfo (metadataSize filedataSize : BitVec 32) : Bytes :=
  le 4 metadataSize.toNat ++ le 4 filedataSize.toNat

/-- `__store_filenode`. -/
def storeFilenode (h : OpenFile) (buffer : Bytes) (dataSize : Nat) : OpenFile × Bool :=
  let metadataSize := BitVec.ofNat 32 buffer.length
  let filedataSize := BitVec.ofNat 32 dataSize
  let h := h.truncate (filenodeTotalSize metadataSize filedataSize)
  let h := h.seek filedataSize.toNat
  let content := h.write maxRwCount buffer
  if !sameInt content.2 buffer.length then (content.1, false)
  else
    let trailer := content.1.write maxRwCount (filenodeInfo metadataSize filedataSize)
    (trailer.1, decide (trailer.2 = 8))

/-- `__parse_filenode`. -/
def parseFilenode (h : OpenFile) : Option Bytes :=
  if h.bytes.length < 8 then none
  else
    let trailer := (h.seek (h.bytes.length - 8)).read maxRwCount 8
    if trailer.2.length ≠ 8 then none
    else
      let metadataSize := leNat (trailer.2.take 4)
      let filedataSize := leNat (trailer.2.drop 4)
      let content := (trailer.1.seek filedataSize).read maxRwCount metadataSize
      if !sameInt content.2.length metadataSize then none else some content.2

/-- The `int offset` of `ecall_fs_file_crypto_seek`, as the `size_t` that it is passed on
as. -/
def ecallOffset (offset : Nat) : Nat := ((BitVec.ofNat 32 offset).signExtend 64).toNat

/-- The enclave, and the file that a transfer has open. -/
structure Backend where
  enclave : State
  handle : OpenFile

namespace Backend

/-- `sgx_backend_fs_file_crypto_seek`. -/
def fileCryptoSeek (b : Backend) (id offset : Nat) (drawn : BitVec 128 × BitVec 128) :
    Backend × Bool :=
  let sought := b.enclave.fileCryptoSeek id (ecallOffset offset) drawn
  if sought.2 then (⟨sought.1, b.handle.seek offset⟩, true) else (⟨sought.1, b.handle⟩, false)

/-- `sgx_backend_fs_file_crypto_encrypt`. -/
def fileCryptoEncrypt (g : Gcm) (b : Backend) (id : Nat) (plaintext : Bytes) :
    Option (Backend × Bool) :=
  match b.enclave.fileCryptoUpdate g id plaintext with
  | none => none
  | some (s, false, _) => some (⟨s, b.handle⟩, false)
  | some (s, true, encrypted) =>
    let written := b.handle.write maxRwCount encrypted
    some (⟨s, written.1⟩, sameInt written.2 encrypted.length)

/-- `sgx_backend_fs_file_crypto_decrypt`. -/
def fileCryptoDecrypt (g : Gcm) (b : Backend) (id size : Nat) : Option (Backend × Bool × Bytes) :=
  let encrypted := b.handle.read maxRwCount size
  if !sameInt encrypted.2.length size then some (⟨b.enclave, encrypted.1⟩, false, [])
  else (b.enclave.fileCryptoUpdate g id encrypted.2).map fun r => (⟨r.1, encrypted.1⟩, r.2)

/-- `sgx_backend_fs_file_crypto_finish` of an encrypt transfer: the enclave has the metadata
stored behind the data. -/
def fileCryptoFinish (b : Backend) (id : Nat) (metadata : Bytes) : Backend × Bool :=
  let stored := storeFilenode b.handle metadata b.enclave.filenode.filesize
  let finished := b.enclave.fileCryptoFinish id stored.2
  (⟨finished.1, stored.1⟩, finished.2)

/-- Write the first chunks of a file; all calls return 0. -/
def writeChunks (g : Gcm) (b : Backend) (id : Nat) (c : Bytes)
    (drawn : Nat → BitVec 128 × BitVec 128) : Nat → Option Backend
  | 0 => some b
  | k + 1 =>
    match writeChunks g b id c drawn k with
    | none => none
    | some b =>
      let sought := b.fileCryptoSeek id (k * globalChunkSize) (drawn k)
      if sought.2 then
        match sought.1.fileCryptoEncrypt g id (chunkOf c k) with
        | some (b, true) => some b
        | _ => none
      else none

/-- Read the first chunks of a file of a given size; all calls return 0. -/
def readChunks (g : Gcm) (b : Backend) (id size : Nat) : Nat → Option (Backend × Bytes)
  | 0 => some (b, [])
  | k + 1 =>
    match readChunks g b id size k with
    | none => none
    | some (b, out) =>
      let sought := b.fileCryptoSeek id (k * globalChunkSize) (0, 0)
      if sought.2 then
        match sought.1.fileCryptoDecrypt g id (min globalChunkSize (size - k * globalChunkSize)) with
        | some (b, true, chunk) => some (b, out ++ chunk)
        | _ => none
      else none

/-- The number of chunks that hold data. -/
def dataChunks (size : Nat) : Nat := (size + globalChunkSize - 1) / globalChunkSize

/-- Write a file up to the call of finish. -/
def writeFile (g : Gcm) (b : Backend) (c : Bytes) (added drawn : Nat → BitVec 128 × BitVec 128) :
    Option (Backend × Nat) :=
  let started := b.enclave.fileEncryptStart c.length added
  (writeChunks g ⟨started.1, b.handle⟩ started.2 c drawn (dataChunks c.length)).map fun b =>
    (b, started.2)

/-- Read a file of a given size. -/
def readFile (g : Gcm) (b : Backend) (size : Nat) : Option Bytes :=
  let started := b.enclave.fileDecryptStart
  (readChunks g ⟨started.1, b.handle⟩ started.2 size (dataChunks size)).map Prod.snd

/-- A file is written and read back; the metadata is stored and read back, and storing it
leaves the data alone. -/
def RoundTrips (g : Gcm) (b : Backend) (c : Bytes) (added drawn : Nat → BitVec 128 × BitVec 128)
    (metadata : Bytes) : Prop :=
  ∃ b₁ b₂ id, b.writeFile g c added drawn = some (b₁, id) ∧
    b₁.fileCryptoFinish id metadata = (b₂, true) ∧
    b₂.readFile g c.length = some c ∧
    parseFilenode b₂.handle = some metadata ∧
    b₂.handle.bytes.take c.length = b₁.handle.bytes.take c.length

end Backend

end Nexus.Files
