import Nexus.Files.Backend
import Nexus.Files.Abort

/-!
# Round trip of file data

A file is written chunk by chunk, its metadata is stored behind the data, and it is
read back.  This works for less than 2 GiB: what is left of a larger file, and the offset
of a chunk that starts there, do not fit the `int` that they go through.
-/

namespace Nexus.Files

open Stream Codec List Option

/-! ## The trailer -/

variable {h : OpenFile} {data rest metadata : Bytes}

theorem sameInt_self (n : Nat) : sameInt n n = true := by simp [sameInt]

@[simp] theorem length_filenodeInfo (metadataSize filedataSize : BitVec 32) :
    (filenodeInfo metadataSize filedataSize).length = 8 := by
  simp [filenodeInfo]

/-- A file with its metadata behind the data. -/
def stored (data metadata : Bytes) : Bytes :=
  data ++ (metadata ++
    filenodeInfo (BitVec.ofNat 32 metadata.length) (BitVec.ofNat 32 data.length))

theorem toNat_ofNat_of_lt {n : Nat} (hlt : n < 2 ^ 32) : (BitVec.ofNat 32 n).toNat = n := by
  rw [BitVec.toNat_ofNat]
  exact Nat.mod_eq_of_lt hlt

theorem storeFilenode_eq (hf : h.bytes = data ++ rest) (hlimit : metadata.length ≤ maxRwCount)
    (hsize : data.length + metadata.length < 2 ^ 32) :
    ∃ position, storeFilenode h metadata data.length = (⟨stored data metadata, position⟩, true) := by
  have hfiledata : (BitVec.ofNat 32 data.length).toNat = data.length :=
    toNat_ofNat_of_lt (by omega)
  have htotal : filenodeTotalSize (BitVec.ofNat 32 metadata.length) (BitVec.ofNat 32 data.length) =
      data.length + metadata.length + 8 := by
    rw [filenodeTotalSize, BitVec.toNat_add, toNat_ofNat_of_lt (by omega), hfiledata]
    omega
  obtain ⟨rest', hrest, hlength⟩ := OpenFile.truncate_eq hf
    (show data.length ≤ data.length + metadata.length + 8 by omega)
  have hcontent := OpenFile.write_eq
    (f := (h.truncate (data.length + metadata.length + 8)).seek data.length) hrest rfl hlimit
  have hnone : (rest'.drop metadata.length).drop 8 = [] := by
    rw [drop_drop]
    exact drop_of_length_le (by omega)
  have htrailer : (⟨data ++ (metadata ++ rest'.drop metadata.length),
      data.length + metadata.length⟩ : OpenFile).write maxRwCount
        (filenodeInfo (BitVec.ofNat 32 metadata.length) (BitVec.ofNat 32 data.length)) =
      (⟨stored data metadata, data.length + metadata.length + 8⟩, 8) := by
    rw [OpenFile.write_eq (append_assoc data metadata _).symm length_append.symm
      (by rw [length_filenodeInfo]; decide), length_filenodeInfo, hnone, append_nil,
      append_assoc, length_append]
    rfl
  refine ⟨data.length + metadata.length + 8, ?_⟩
  unfold storeFilenode
  simp only [htotal, hfiledata, hcontent, sameInt_self, Bool.not_true, Bool.false_eq_true, if_false]
  rw [htrailer]
  rfl

theorem parseFilenode_eq (position : Nat) (hlimit : metadata.length ≤ maxRwCount)
    (hsize : data.length + metadata.length < 2 ^ 32) :
    parseFilenode ⟨stored data metadata, position⟩ = some metadata := by
  have hlength : (stored data metadata).length = (data ++ metadata).length + 8 := by
    rw [stored, ← append_assoc, length_append, length_filenodeInfo]
  have htrailer : ((⟨stored data metadata, position⟩ : OpenFile).seek
      (data ++ metadata).length).read maxRwCount 8 =
        (⟨stored data metadata, (data ++ metadata).length + 8⟩,
          filenodeInfo (BitVec.ofNat 32 metadata.length) (BitVec.ofNat 32 data.length)) := by
    have hbytes : stored data metadata = (data ++ metadata) ++
        (filenodeInfo (BitVec.ofNat 32 metadata.length) (BitVec.ofNat 32 data.length) ++ []) := by
      simp [stored]
    have hread : ((⟨stored data metadata, position⟩ : OpenFile).seek
        (data ++ metadata).length).read maxRwCount (filenodeInfo (BitVec.ofNat 32 metadata.length)
          (BitVec.ofNat 32 data.length)).length = (⟨stored data metadata, _⟩, _) :=
      OpenFile.read_eq hbytes rfl (by rw [length_filenodeInfo]; decide)
    rwa [length_filenodeInfo] at hread
  have hcontent : ((⟨stored data metadata, (data ++ metadata).length + 8⟩ : OpenFile).seek
      data.length).read maxRwCount metadata.length = (_, metadata) :=
    OpenFile.read_eq rfl rfl hlimit
  have hmetadata : leNat ((filenodeInfo (BitVec.ofNat 32 metadata.length)
      (BitVec.ofNat 32 data.length)).take 4) = metadata.length := by
    rw [filenodeInfo, take_left' (length_le 4 _), leNat_le, toNat_ofNat_of_lt (by omega)]
    exact Nat.mod_eq_of_lt (by norm_num; omega)
  have hfiledata : leNat ((filenodeInfo (BitVec.ofNat 32 metadata.length)
      (BitVec.ofNat 32 data.length)).drop 4) = data.length := by
    rw [filenodeInfo, drop_left' (length_le 4 _), leNat_le, toNat_ofNat_of_lt (by omega)]
    exact Nat.mod_eq_of_lt (by norm_num; omega)
  unfold parseFilenode
  dsimp only
  rw [hlength, if_neg (by omega), Nat.add_sub_cancel, htrailer]
  dsimp only
  rw [length_filenodeInfo, if_neg (by decide), hmetadata, hfiledata, hcontent]
  simp [sameInt_self]

theorem truncate_pad (bytes : Bytes) (position : Nat) {size n : Nat} (hn : size ≤ n) :
    (⟨bytes ++ List.replicate (size - bytes.length) 0, position⟩ : OpenFile).truncate n =
      (⟨bytes, position⟩ : OpenFile).truncate n := by
  unfold OpenFile.truncate
  by_cases hlong : size ≤ bytes.length
  · rw [Nat.sub_eq_zero_of_le hlong, replicate_zero, append_nil]
  · have hpadded : (bytes ++ List.replicate (size - bytes.length) (0 : UInt8)).length = size := by
      rw [length_append, length_replicate]
      omega
    have hzeros : size - bytes.length + (n - size) = n - bytes.length := by omega
    dsimp only
    rw [hpadded, take_of_length_le (by omega), take_of_length_le (by omega),
      append_assoc, replicate_append_replicate, hzeros]

theorem parseFilenode_storeFilenode (bytes : Bytes) {dataSize : Nat}
    (hlimit : metadata.length ≤ maxRwCount) (hsize : dataSize + metadata.length < 2 ^ 32) :
    ∃ file, storeFilenode ⟨bytes, 0⟩ metadata dataSize = (file, true) ∧
      parseFilenode ⟨file.bytes, 0⟩ = some metadata := by
  have htotal : dataSize ≤ filenodeTotalSize (BitVec.ofNat 32 metadata.length)
      (BitVec.ofNat 32 dataSize) := by
    rw [filenodeTotalSize, BitVec.toNat_add, toNat_ofNat_of_lt (by omega),
      toNat_ofNat_of_lt (by omega)]
    omega
  generalize hpadded : bytes ++ List.replicate (dataSize - bytes.length) (0 : UInt8) = padded
  have hlength : (padded.take dataSize).length = dataSize := by
    rw [← hpadded, length_take, length_append, length_replicate]
    omega
  have hsplit : (⟨padded, 0⟩ : OpenFile).bytes = padded.take dataSize ++ padded.drop dataSize :=
    (take_append_drop dataSize padded).symm
  obtain ⟨position, hstore⟩ := storeFilenode_eq hsplit hlimit (by rw [hlength]; exact hsize)
  rw [hlength] at hstore
  refine ⟨⟨stored (padded.take dataSize) metadata, position⟩, ?_, ?_⟩
  · rw [← hstore, ← hpadded]
    unfold storeFilenode
    dsimp only
    rw [truncate_pad bytes 0 htotal]
  · exact parseFilenode_eq 0 hlimit (by rw [hlength]; exact hsize)

/-! ## Offsets -/

theorem toNat_signExtend_ofNat (offset : Nat) :
    ecallOffset offset =
      offset % 2 ^ 32 + if 2 ^ 31 ≤ offset % 2 ^ 32 then 2 ^ 64 - 2 ^ 32 else 0 := by
  have hmsb : (BitVec.ofNat 32 offset).msb = decide (2 ^ 31 ≤ offset % 2 ^ 32) := by
    rw [BitVec.msb_eq_decide, BitVec.toNat_ofNat]
  have hlt : offset % 2 ^ 32 < 2 ^ 64 := lt_trans (Nat.mod_lt _ (by decide)) (by decide)
  rw [ecallOffset, BitVec.toNat_signExtend, BitVec.toNat_setWidth, BitVec.toNat_ofNat, hmsb,
    Nat.mod_eq_of_lt hlt]
  simp only [decide_eq_true_eq]

theorem ecallOffset_of_lt {offset : Nat} (hlt : offset < 2 ^ 31) : ecallOffset offset = offset := by
  rw [toNat_signExtend_ofNat]
  split <;> omega

/-! ## One chunk -/

namespace State

variable {g : Gcm} {s : State} {id chunk : Nat} {x : XferContext} {entry : ChunkEntry}

theorem length_blocks_nil : (blocks []).length = 0 := rfl

theorem updateSize_whole {key iv : BitVec 128} {p : Bytes} (hp : p.length = x.chunkLeft)
    (hroom : x.chunkLeft ≤ globalChunkSize) :
    updateSize x ⟨key, iv, []⟩ p = some p.length := by
  have hcs : globalChunkSize = 2 ^ 20 := rfl
  rw [updateSize_eq (by omega) (by simpa using hroom), hp, min_self]

section

variable (hx : s.xferTable id = some x) (hmode : x.mode = .encrypt)
include hx hmode

theorem fileCryptoSeek_begins (hleft : x.chunkLeft = 0)
    (hlog : s.filenode.log2chunksize = Filenode.globalLog2chunkSize)
    (hle : chunk * globalChunkSize ≤ s.filenode.filesize)
    (hlt : chunk < s.filenode.chunkList.length) (drawn : BitVec 128 × BitVec 128) :
    ∃ s₁ x₁, s.fileCryptoSeek id (chunk * globalChunkSize) drawn = (s₁, true) ∧
      s₁.filenode = { s.filenode with
        chunkList := s.filenode.chunkList.set chunk (cryptoCtxGenerate drawn) } ∧
      s₁.xferTable id = some x₁ ∧ x₁.mode = .encrypt ∧ x₁.cryptoContext = some chunk ∧
      x₁.dataBuffer = some ⟨drawn.1, drawn.2, []⟩ ∧ x₁.chunkLeft = s.chunkLength chunk := by
  simp [fileCryptoSeek, hx, hleft, Nat.not_lt.mpr hle, setupDataBuffer, filenodeGetChunk, hmode,
    getChunkNumber_chunk hlog, getElem?_eq_getElem hlt, cryptoCtxGenerate, chunkLength]

theorem fileCryptoUpdate_completes {drawn : BitVec 128 × BitVec 128} {p : Bytes}
    (hchunk : x.cryptoContext = some chunk) (hbuf : x.dataBuffer = some ⟨drawn.1, drawn.2, []⟩)
    (hentry : s.filenode.chunkList[chunk]? = some (cryptoCtxGenerate drawn))
    (hp : p.length = x.chunkLeft) (hroom : x.chunkLeft ≤ globalChunkSize) :
    ∃ s₁ x₁ length, s.fileCryptoUpdate g id p =
        some (s₁, true, mask (g.keystream drawn.1 drawn.2) 0 p) ∧
      s₁.filenode = { s.filenode with
        chunkList := s.filenode.chunkList.set chunk ⟨drawn.1, drawn.2,
          g.tag drawn.1 drawn.2 [mask (g.keystream drawn.1 drawn.2) 0 p]⟩
        encryptedLength := length } ∧
      s₁.xferTable id = some x₁ ∧ x₁.mode = .encrypt ∧ x₁.chunkLeft = 0 := by
  rw [fileCryptoUpdate_encrypt hx hmode hbuf (updateSize_whole hp hroom)]
  simp only [setChunkMac, hchunk, bind_some, hentry, map_some, take_length, hp.ge,
    filenodeUpdateEncryptedPos_eq, dataBufWrite, if_true, nil_append, length_blocks_nil]
  exact ⟨_, _, _, rfl, rfl, putContext_xferTable_self _ _ _, hmode, rfl⟩

theorem writes_chunk {p : Bytes} (hleft : x.chunkLeft = 0)
    (hlog : s.filenode.log2chunksize = Filenode.globalLog2chunkSize)
    (hle : chunk * globalChunkSize ≤ s.filenode.filesize)
    (hlt : chunk < s.filenode.chunkList.length) (hp : p.length = s.chunkLength chunk)
    (hroom : s.chunkLength chunk ≤ globalChunkSize) (drawn : BitVec 128 × BitVec 128) :
    ∃ s₁ s₂ x₂ length, s.fileCryptoSeek id (chunk * globalChunkSize) drawn = (s₁, true) ∧
      s₁.fileCryptoUpdate g id p = some (s₂, true, mask (g.keystream drawn.1 drawn.2) 0 p) ∧
      s₂.filenode = { s.filenode with
        chunkList := s.filenode.chunkList.set chunk ⟨drawn.1, drawn.2,
          g.tag drawn.1 drawn.2 [mask (g.keystream drawn.1 drawn.2) 0 p]⟩
        encryptedLength := length } ∧
      s₂.xferTable id = some x₂ ∧ x₂.mode = .encrypt ∧ x₂.chunkLeft = 0 := by
  obtain ⟨s₁, x₁, hseek, hfile₁, hx₁, hmode₁, hchunk₁, hbuf₁, hleft₁⟩ :=
    fileCryptoSeek_begins hx hmode hleft hlog hle hlt drawn
  have hentry : s₁.filenode.chunkList[chunk]? = some (cryptoCtxGenerate drawn) := by
    simp [hfile₁, hlt]
  obtain ⟨s₂, x₂, length, hupdate, hfile₂, hx₂, hmode₂, hleft₂⟩ := fileCryptoUpdate_completes
    (g := g) hx₁ hmode₁ hchunk₁ hbuf₁ hentry (hp.trans hleft₁.symm)
    (hleft₁.trans_le hroom)
  refine ⟨s₁, s₂, x₂, length, hseek, hupdate, ?_, hx₂, hmode₂, hleft₂⟩
  rw [hfile₂, hfile₁, set_set]

end

theorem reads_chunk {p : Bytes} (hx : s.xferTable id = some x) (hmode : x.mode = .decrypt)
    (hleft : x.chunkLeft = 0) (hlog : s.filenode.log2chunksize = Filenode.globalLog2chunkSize)
    (hle : chunk * globalChunkSize ≤ s.filenode.filesize)
    (hentry : s.filenode.chunkList[chunk]? = some entry) (hp : p.length = s.chunkLength chunk)
    (hroom : s.chunkLength chunk ≤ globalChunkSize)
    (hmac : entry.mac = g.tag entry.key entry.iv [p]) :
    ∃ s₁ s₂ x₂, s.fileCryptoSeek id (chunk * globalChunkSize) (0, 0) = (s₁, true) ∧
      s₁.fileCryptoUpdate g id p = some (s₂, true, mask (g.keystream entry.key entry.iv) 0 p) ∧
      s₂.filenode = s.filenode ∧
      s₂.xferTable id = some x₂ ∧ x₂.mode = .decrypt ∧ x₂.chunkLeft = 0 := by
  obtain ⟨s₁, x₁, hseek, hfile₁, hx₁, hmode₁, hchunk₁, hbuf₁, hleft₁⟩ : ∃ s₁ x₁,
      s.fileCryptoSeek id (chunk * globalChunkSize) (0, 0) = (s₁, true) ∧
      s₁.filenode = s.filenode ∧ s₁.xferTable id = some x₁ ∧ x₁.mode = .decrypt ∧
      x₁.cryptoContext = some chunk ∧ x₁.dataBuffer = some ⟨entry.key, entry.iv, []⟩ ∧
      x₁.chunkLeft = s.chunkLength chunk := by
    simp [fileCryptoSeek, hx, hleft, Nat.not_lt.mpr hle, setupDataBuffer, filenodeGetChunk, hmode,
      getChunkNumber_chunk hlog, hentry, chunkLength]
  have hp₁ : p.length = x₁.chunkLeft := hp.trans hleft₁.symm
  have hchunkMac : s₁.chunkMac x₁ = some (g.tag entry.key entry.iv [p]) := by
    simp [chunkMac, hchunk₁, hfile₁, hentry, hmac]
  refine ⟨s₁, ?_⟩
  rw [fileCryptoUpdate_decrypt hx₁ hmode₁ hbuf₁ (updateSize_whole hp₁ (hleft₁.trans_le hroom))]
  simp only [hp₁.ge, if_true, take_length, hchunkMac, map_some, nil_append, length_blocks_nil,
    decide_true, ite_self, advanced]
  exact ⟨_, _, hseek, rfl, hfile₁, putContext_xferTable_self _ _ _, hmode₁, by simp [hp₁]⟩

end State

/-! ## Writing a file -/

/-- The ciphertext of a chunk. -/
def cipher (g : Gcm) (c : Bytes) (drawn : Nat → BitVec 128 × BitVec 128) (chunk : Nat) : Bytes :=
  mask (g.keystream (drawn chunk).1 (drawn chunk).2) 0 (chunkOf c chunk)

/-- The ciphertext of the first chunks. -/
def ciphers (g : Gcm) (c : Bytes) (drawn : Nat → BitVec 128 × BitVec 128) (k : Nat) : Bytes :=
  (List.range k).flatMap (cipher g c drawn)

section Chunks

variable {g : Gcm} {c : Bytes} {drawn : Nat → BitVec 128 × BitVec 128} {k : Nat}

theorem ciphers_succ : ciphers g c drawn (k + 1) = ciphers g c drawn k ++ cipher g c drawn k := by
  simp [ciphers, range_succ]

theorem length_cipher (chunk : Nat) :
    (cipher g c drawn chunk).length = min globalChunkSize (c.length - chunk * globalChunkSize) := by
  rw [cipher, length_mask, length_chunkOf]

theorem length_ciphers : (ciphers g c drawn k).length = min (k * globalChunkSize) c.length := by
  induction k with
  | zero => simp [ciphers]
  | succ k ih =>
    rw [ciphers_succ, length_append, ih, length_cipher, Nat.succ_mul]
    omega

end Chunks

theorem chunkLength_of_filesize {s : State} {size : Nat} (hfilesize : s.filenode.filesize = size)
    (hsize : size < 2 ^ 31) (k : Nat) :
    s.chunkLength k = min globalChunkSize (size - k * globalChunkSize) := by
  rw [State.chunkLength_eq (by omega), hfilesize, min_comm]

/-- The first chunks of a file are written, and the transfer is at the end of a chunk. -/
structure Writing (g : Gcm) (c : Bytes) (drawn : Nat → BitVec 128 × BitVec 128) (b : Backend)
    (id k : Nat) : Prop where
  log : b.enclave.filenode.log2chunksize = Filenode.globalLog2chunkSize
  filesize : b.enclave.filenode.filesize = c.length
  context : ∃ x, b.enclave.xferTable id = some x ∧ x.mode = .encrypt ∧ x.chunkLeft = 0
  present : ∀ i, i * globalChunkSize < c.length → i < b.enclave.filenode.chunkList.length
  chunks : ∀ i < k, b.enclave.filenode.chunkList[i]? =
    some ⟨(drawn i).1, (drawn i).2, g.tag (drawn i).1 (drawn i).2 [cipher g c drawn i]⟩
  bytes : ∃ rest, b.handle.bytes = ciphers g c drawn k ++ rest

variable {g : Gcm} {c : Bytes} {drawn : Nat → BitVec 128 × BitVec 128} {b : Backend} {id k : Nat}

theorem Writing.step (h : Writing g c drawn b id k) (hdata : k * globalChunkSize < c.length)
    (hsize : c.length < 2 ^ 31) :
    ∃ b', b.fileCryptoSeek id (k * globalChunkSize) (drawn k) = (b', true) ∧
      ∃ b'', b'.fileCryptoEncrypt g id (chunkOf c k) = some (b'', true) ∧
        Writing g c drawn b'' id (k + 1) := by
  obtain ⟨x, hx, hmode, hleft⟩ := h.context
  obtain ⟨rest, hrest⟩ := h.bytes
  have hlt := h.present k hdata
  have hchunkLength := chunkLength_of_filesize h.filesize hsize k
  have hp : (chunkOf c k).length = b.enclave.chunkLength k :=
    (length_chunkOf c k).trans hchunkLength.symm
  obtain ⟨s₁, s₂, x₂, length, hseek, hupdate, hfile, hx₂, hmode₂, hleft₂⟩ :=
    State.writes_chunk (g := g) hx hmode hleft h.log (by rw [h.filesize]; exact hdata.le) hlt hp
      (hchunkLength.trans_le (min_le_left _ _)) (drawn k)
  have hposition : (ciphers g c drawn k).length = k * globalChunkSize := by
    rw [length_ciphers]
    omega
  have hcs : globalChunkSize ≤ maxRwCount := by decide
  obtain ⟨handle, hwrite, hbytes⟩ : ∃ handle,
      (b.handle.seek (k * globalChunkSize)).write maxRwCount (cipher g c drawn k) =
        (handle, (cipher g c drawn k).length) ∧
      handle.bytes = ciphers g c drawn (k + 1) ++ rest.drop (cipher g c drawn k).length := by
    refine ⟨_, OpenFile.write_eq hrest hposition.symm ?_, ?_⟩
    · rw [length_cipher]
      exact (min_le_left _ _).trans hcs
    rw [ciphers_succ, append_assoc]
  refine ⟨⟨s₁, b.handle.seek (k * globalChunkSize)⟩, ?_, ⟨s₂, handle⟩, ?_, ?_⟩
  · simp only [Backend.fileCryptoSeek, ecallOffset_of_lt (hdata.trans hsize), hseek, if_true]
  · change s₁.fileCryptoUpdate g id (chunkOf c k) = some (s₂, true, cipher g c drawn k) at hupdate
    simp only [Backend.fileCryptoEncrypt, hupdate, hwrite, sameInt_self]
  · refine ⟨?_, ?_, ⟨x₂, hx₂, hmode₂, hleft₂⟩, fun i hi => ?_, fun i hi => ?_, ?_⟩
    · rw [hfile]
      exact h.log
    · rw [hfile]
      exact h.filesize
    · rw [hfile]
      simpa using h.present i hi
    · rw [hfile]
      dsimp only
      rw [getElem?_set]
      obtain hik | rfl := Nat.lt_succ_iff_lt_or_eq.mp hi
      · rw [if_neg (by omega)]
        exact h.chunks i hik
      · rw [if_pos rfl, if_pos hlt]
        rfl
    · exact ⟨_, hbytes⟩

theorem Writing.writeChunks (h : Writing g c drawn b id 0)
    (hsize : c.length < 2 ^ 31) (hdata : k * globalChunkSize < c.length + globalChunkSize) :
    ∃ b', b.writeChunks g id c drawn k = some b' ∧ Writing g c drawn b' id k := by
  induction k with
  | zero => exact ⟨b, rfl, h⟩
  | succ k ih =>
    rw [Nat.succ_mul] at hdata
    obtain ⟨b₁, hb₁, hwriting⟩ := ih (by omega)
    obtain ⟨b₂, hseek, b₃, hencrypt, hwriting'⟩ := hwriting.step (by omega) hsize
    exact ⟨b₃, by simp only [Backend.writeChunks, hb₁, hseek, hencrypt, if_true], hwriting'⟩

/-! ## Reading a file -/

/-- The first chunks of a file are read, and the transfer is at the end of a chunk. -/
structure Reading (g : Gcm) (c : Bytes) (drawn : Nat → BitVec 128 × BitVec 128) (b : Backend)
    (id : Nat) : Prop where
  log : b.enclave.filenode.log2chunksize = Filenode.globalLog2chunkSize
  filesize : b.enclave.filenode.filesize = c.length
  context : ∃ x, b.enclave.xferTable id = some x ∧ x.mode = .decrypt ∧ x.chunkLeft = 0
  chunks : ∀ i, i * globalChunkSize < c.length → b.enclave.filenode.chunkList[i]? =
    some ⟨(drawn i).1, (drawn i).2, g.tag (drawn i).1 (drawn i).2 [cipher g c drawn i]⟩
  bytes : ∀ k, k * globalChunkSize < c.length + globalChunkSize →
    ∃ rest, b.handle.bytes = ciphers g c drawn k ++ rest

theorem Reading.step (h : Reading g c drawn b id) (hdata : k * globalChunkSize < c.length)
    (hsize : c.length < 2 ^ 31) :
    ∃ b', b.fileCryptoSeek id (k * globalChunkSize) (0, 0) = (b', true) ∧
      ∃ b'', b'.fileCryptoDecrypt g id (min globalChunkSize (c.length - k * globalChunkSize)) =
          some (b'', true, chunkOf c k) ∧ Reading g c drawn b'' id := by
  obtain ⟨x, hx, hmode, hleft⟩ := h.context
  obtain ⟨rest, hrest⟩ := h.bytes (k + 1) (by rw [Nat.succ_mul]; omega)
  rw [ciphers_succ, append_assoc] at hrest
  have hchunkLength := chunkLength_of_filesize h.filesize hsize k
  have hp : (cipher g c drawn k).length = b.enclave.chunkLength k :=
    (length_cipher k).trans hchunkLength.symm
  obtain ⟨s₁, s₂, x₂, hseek, hupdate, hfile, hx₂, hmode₂, hleft₂⟩ :=
    State.reads_chunk hx hmode hleft h.log (by rw [h.filesize]; exact hdata.le) (h.chunks k hdata)
      hp (hchunkLength.trans_le (min_le_left _ _)) rfl
  have hposition : (ciphers g c drawn k).length = k * globalChunkSize := by
    rw [length_ciphers]
    omega
  have hcs : globalChunkSize ≤ maxRwCount := by decide
  obtain ⟨handle, hread, hbytes⟩ : ∃ handle,
      (b.handle.seek (k * globalChunkSize)).read maxRwCount (cipher g c drawn k).length =
        (handle, cipher g c drawn k) ∧ handle.bytes = b.handle.bytes :=
    ⟨_, OpenFile.read_eq hrest hposition.symm (by rw [length_cipher]; omega), rfl⟩
  rw [length_cipher] at hread
  refine ⟨⟨s₁, b.handle.seek (k * globalChunkSize)⟩, ?_, ⟨s₂, handle⟩, ?_, ?_⟩
  · simp only [Backend.fileCryptoSeek, ecallOffset_of_lt (hdata.trans hsize), hseek, if_true]
  · have hplain : s₁.fileCryptoUpdate g id (cipher g c drawn k) = some (s₂, true, chunkOf c k) :=
      hupdate.trans (congrArg (fun p => some (s₂, true, p)) (mask_mask _))
    simp only [Backend.fileCryptoDecrypt, hread, length_cipher, sameInt_self, hplain, Bool.not_true,
      Bool.false_eq_true, if_false, map_some]
  · refine ⟨?_, ?_, ⟨x₂, hx₂, hmode₂, hleft₂⟩, fun i hi => ?_, by rw [hbytes]; exact h.bytes⟩
    · rw [hfile]
      exact h.log
    · rw [hfile]
      exact h.filesize
    · rw [hfile]
      exact h.chunks i hi

theorem Reading.readChunks (h : Reading g c drawn b id)
    (hsize : c.length < 2 ^ 31) (hdata : k * globalChunkSize < c.length + globalChunkSize) :
    ∃ b', b.readChunks g id c.length k = some (b', c.take (k * globalChunkSize)) ∧
      Reading g c drawn b' id := by
  induction k with
  | zero => exact ⟨b, by simp [Backend.readChunks], h⟩
  | succ k ih =>
    rw [Nat.succ_mul] at hdata
    have hdata' := Nat.lt_of_add_lt_add_right hdata
    obtain ⟨b₁, hb₁, hreading⟩ := ih (Nat.lt_add_right _ hdata')
    obtain ⟨b₂, hseek, b₃, hdecrypt, hreading'⟩ := hreading.step hdata' hsize
    refine ⟨b₃, ?_, hreading'⟩
    rw [Backend.readChunks, Nat.succ_mul, take_add]
    -- the kernel must not compute with the length
    generalize min globalChunkSize (c.length - k * globalChunkSize) = length at hdecrypt ⊢
    simp only [hb₁, hseek, hdecrypt, if_true, chunkOf]

/-! ## Starting a transfer -/

/-- A filenode as it is stored: new, or with the chunks for its size. -/
structure Sized (f : Filenode) : Prop where
  log : f.log2chunksize = Filenode.globalLog2chunkSize
  counted : Counted f ∨ (f.filesize = 0 ∧ f.nchunks = 0 ∧ f.chunkList = [])
  few : f.chunkList.length ≤ 2 ^ 31

theorem Sized.setFilesize_length {f : Filenode} (h : Sized f) {size : Nat} (hsize : size ≤ 2 ^ 31)
    (generated : Nat → ChunkEntry) {i : Nat} (hi : i * globalChunkSize < size) :
    i < (f.setFilesize size generated).chunkList.length := by
  have hcount := getChunkCount_eq h.log size
  have hcs : globalChunkSize = 2 ^ 20 := rfl
  have hsmall : f.getChunkCount size < 2 ^ 31 := by
    rw [hcount, hcs]
    omega
  have hi' : i < f.getChunkCount size := by
    rw [hcs] at hi
    rw [hcount, hcs]
    omega
  have hcounted : Counted (f.setFilesize size generated) := by
    obtain hcounted | ⟨hzero, hnchunks, hchunks⟩ := h.counted
    · exact (resized_setFilesize hcounted (by omega)
        (by rw [← hcounted.chunkList]; have := h.few; omega) generated).counted
    · exact counted_setFilesize_of_new hzero hnchunks hchunks (by omega) hsmall generated
  rw [hcounted.chunkList, State.filesize_setFilesize,
    getChunkCount_eq ((setFilesize_frame ..).1.trans h.log), ← hcount]
  exact hi'

theorem writing_start (h : Sized b.enclave.filenode) (hsize : c.length ≤ 2 ^ 31)
    (added : Nat → BitVec 128 × BitVec 128) :
    Writing g c drawn ⟨(b.enclave.fileEncryptStart c.length added).1, b.handle⟩
      (b.enclave.fileEncryptStart c.length added).2 0 where
  log := (refreshed_setFilesize _ _ _).log.trans h.log
  filesize := State.filesize_setFilesize _ _ _
  context := ⟨⟨.encrypt, 0, 0, none, none⟩, by simp [State.fileEncryptStart, State.fileCryptoNew],
    rfl, rfl⟩
  present := fun _ hi => h.setFilesize_length hsize _ hi
  chunks := fun i hi => absurd hi (Nat.not_lt_zero i)
  bytes := ⟨b.handle.bytes, rfl⟩

theorem ciphers_append_of_le {k' : Nat} (hle : k ≤ k') :
    ∃ rest, ciphers g c drawn k' = ciphers g c drawn k ++ rest := by
  induction k', hle using Nat.le_induction with
  | base => exact ⟨[], (append_nil _).symm⟩
  | succ k' _ ih =>
    obtain ⟨rest, hrest⟩ := ih
    exact ⟨rest ++ cipher g c drawn k', by rw [ciphers_succ, hrest, append_assoc]⟩

/-! ## Files of 2 GiB and more -/

/-- The filenode keeps its size and the number of its chunks. -/
structure SameSize (f f' : Filenode) : Prop where
  log : f'.log2chunksize = f.log2chunksize
  filesize : f'.filesize = f.filesize
  length : f'.chunkList.length = f.chunkList.length

theorem sameSize_fileCryptoSeek (s : State) (id offset : Nat) (drawn : BitVec 128 × BitVec 128) :
    SameSize s.filenode (s.fileCryptoSeek id offset drawn).1.filenode := by
  unfold State.fileCryptoSeek
  split
  · exact ⟨rfl, rfl, rfl⟩
  split_ifs
  · exact ⟨rfl, rfl, rfl⟩
  · exact ⟨rfl, rfl, rfl⟩
  · exact ⟨rfl, rfl, rfl⟩
  unfold State.setupDataBuffer
  split
  · exact ⟨rfl, rfl, rfl⟩
  next hget =>
    unfold filenodeGetChunk at hget
    dsimp only at hget
    split at hget
    · cases hget
    split at hget
    · cases hget
      exact ⟨rfl, rfl, length_set⟩
    · cases hget
      exact ⟨rfl, rfl, rfl⟩

theorem sameSize_fileCryptoUpdate {s s' : State} {input out : Bytes} {ok : Bool}
    (h : s.fileCryptoUpdate g id input = some (s', ok, out)) : SameSize s.filenode s'.filenode := by
  obtain ⟨-, hfile⟩ | ⟨e, entry, length, -, -, hfile⟩ := State.fileCryptoUpdate_filenode h
  · rw [hfile]
    exact ⟨rfl, rfl, rfl⟩
  · rw [hfile]
    exact ⟨rfl, rfl, length_set⟩

theorem SameSize.trans {f f' f'' : Filenode} (h : SameSize f f') (h' : SameSize f' f'') :
    SameSize f f'' :=
  ⟨h'.log.trans h.log, h'.filesize.trans h.filesize, h'.length.trans h.length⟩

/-- The chunk that starts at 2 GiB is sought at the offset that the `int` stands for, which
is beyond the end of the file or of its chunks. -/
theorem fileCryptoSeek_twoGiB {s : State} (hlog : s.filenode.log2chunksize = Filenode.globalLog2chunkSize)
    (hlength : s.filenode.chunkList.length ≤ 2 ^ 32) (id : Nat) (drawn : BitVec 128 × BitVec 128) :
    (s.fileCryptoSeek id (ecallOffset (2048 * globalChunkSize)) drawn).2 = false := by
  have hoffset : ecallOffset (2048 * globalChunkSize) = (2 ^ 44 - 2 ^ 11) * globalChunkSize := by
    decide
  have hnone : s.filenode.chunkList[2 ^ 44 - 2 ^ 11]? = none := getElem?_eq_none (by omega)
  rw [hoffset]
  unfold State.fileCryptoSeek
  split
  · rfl
  split_ifs
  · rfl
  · rfl
  · rfl
  unfold State.setupDataBuffer filenodeGetChunk
  simp only [State.getChunkNumber_chunk hlog, hnone]

theorem Backend.fileCryptoSeek_eq (b : Backend) (id offset : Nat) (drawn : BitVec 128 × BitVec 128) :
    (b.fileCryptoSeek id offset drawn).1.enclave =
        (b.enclave.fileCryptoSeek id (ecallOffset offset) drawn).1 ∧
      (b.fileCryptoSeek id offset drawn).2 =
        (b.enclave.fileCryptoSeek id (ecallOffset offset) drawn).2 := by
  unfold Backend.fileCryptoSeek
  dsimp only
  split
  next h => exact ⟨rfl, h.symm⟩
  next h => exact ⟨rfl, (Bool.eq_false_of_not_eq_true h).symm⟩

theorem Backend.sameSize_fileCryptoEncrypt {b' : Backend} {plaintext : Bytes} {ok : Bool}
    (h : b.fileCryptoEncrypt g id plaintext = some (b', ok)) :
    SameSize b.enclave.filenode b'.enclave.filenode := by
  unfold Backend.fileCryptoEncrypt at h
  split at h
  · cases h
  next hupdate =>
    cases h
    exact sameSize_fileCryptoUpdate hupdate
  next hupdate =>
    cases h
    exact sameSize_fileCryptoUpdate hupdate

theorem writeChunks_le {b' : Backend}
    (hlog : b.enclave.filenode.log2chunksize = Filenode.globalLog2chunkSize)
    (hlength : b.enclave.filenode.chunkList.length ≤ 2 ^ 32)
    (h : b.writeChunks g id c drawn k = some b') :
    k ≤ 2048 ∧ SameSize b.enclave.filenode b'.enclave.filenode := by
  induction k generalizing b' with
  | zero =>
    cases h
    exact ⟨Nat.zero_le _, rfl, rfl, rfl⟩
  | succ k ih =>
    unfold Backend.writeChunks at h
    split at h
    · cases h
    next b₁ hb₁ =>
      obtain ⟨hk, hsame⟩ := ih hb₁
      dsimp only at h
      split at h
      next hsought =>
        obtain ⟨henclave, hok⟩ := b₁.fileCryptoSeek_eq id (k * globalChunkSize) (drawn k)
        have hne : k ≠ 2048 := by
          rintro rfl
          rw [hok, fileCryptoSeek_twoGiB (hsame.log.trans hlog) (hsame.length.trans_le hlength)]
            at hsought
          cases hsought
        split at h
        next hencrypt =>
          cases h
          have hsame' := Backend.sameSize_fileCryptoEncrypt hencrypt
          rw [henclave] at hsame'
          exact ⟨by omega, (hsame.trans (sameSize_fileCryptoSeek _ _ _ _)).trans hsame'⟩
        next => cases h
      next => cases h

theorem length_setFilesize_le (f : Filenode) (size : Nat) (generated : Nat → ChunkEntry) :
    (f.setFilesize size generated).chunkList.length ≤ f.chunkList.length + 2 ^ 31 := by
  unfold Filenode.setFilesize
  split
  · omega
  dsimp only
  split
  · dsimp only
    omega
  have hlt := BitVec.toInt_lt (x := BitVec.ofNat 32 (f.getChunkCount size) - f.nchunks)
  simp only [length_append, length_take, length_map, length_range]
  omega

theorem length_parseFilenode {h : OpenFile} {metadata : Bytes} (hparse : parseFilenode h = some metadata) :
    metadata.length ≤ maxRwCount := by
  unfold parseFilenode at hparse
  dsimp only at hparse
  split at hparse
  · cases hparse
  split at hparse
  · cases hparse
  split at hparse
  · cases hparse
  cases hparse
  simp only [OpenFile.read, length_take]
  omega

theorem dataChunks_mul_le (size : Nat) :
    Backend.dataChunks size * globalChunkSize < size + globalChunkSize ∧
      size ≤ Backend.dataChunks size * globalChunkSize := by
  have hcs : 0 < globalChunkSize := Nat.two_pow_pos _
  have hle := Nat.div_mul_le_self (size + globalChunkSize - 1) globalChunkSize
  have hlt := Nat.lt_div_mul_add (a := size + globalChunkSize - 1) hcs
  unfold Backend.dataChunks
  omega

/-- The first chunk of a file of just 2 GiB cannot be encrypted: what is left of the file is
negative as an `int`. -/
theorem Writing.not_twoGiB (h : Writing g c drawn b id 0) (hsize : c.length = 2 ^ 31) (k : Nat) :
    b.writeChunks g id c drawn (k + 1) = none := by
  induction k with
  | succ k ih => rw [Backend.writeChunks, ih]
  | zero =>
    obtain ⟨x, hx, hmode, hleft⟩ := h.context
    obtain ⟨s₁, x₁, hseek, -, hx₁, -, -, hbuf₁, hleft₁⟩ := State.fileCryptoSeek_begins
      hx hmode hleft h.log (by omega) (h.present 0 (by omega)) (drawn 0)
    have hneg : 2 ^ 31 ≤ x₁.chunkLeft % 2 ^ 32 := by
      rw [hleft₁, State.chunkLength, h.filesize, hsize]
      decide
    have hoffset : ecallOffset (0 * globalChunkSize) = 0 * globalChunkSize := by decide
    simp only [Backend.writeChunks, Backend.fileCryptoSeek, hoffset, hseek, if_true,
      Backend.fileCryptoEncrypt, State.fileCryptoUpdate, hx₁, hbuf₁,
      State.updateSize_negative hneg]

theorem length_lt_of_writeFile (hsized : Sized b.enclave.filenode)
    {added : Nat → BitVec 128 × BitVec 128} {r : Backend × Nat}
    (hwrite : b.writeFile g c added drawn = some r) : c.length < 2 ^ 31 := by
  obtain ⟨b', hchunks, -⟩ := map_eq_some_iff.mp hwrite
  have hfew := hsized.few
  have hlength := length_setFilesize_le b.enclave.filenode c.length (cryptoCtxGenerate ∘ added)
  obtain ⟨hk, -⟩ := writeChunks_le ((refreshed_setFilesize _ _ _).log.trans hsized.log)
    (hlength.trans (by omega)) hchunks
  have hall := (dataChunks_mul_le c.length).2
  have hcs : globalChunkSize = 2 ^ 20 := rfl
  rw [hcs] at hall
  refine lt_of_le_of_ne (by omega) fun hsize => ?_
  obtain ⟨k, hsucc⟩ : ∃ k, Backend.dataChunks c.length = k + 1 :=
    Nat.exists_eq_add_one_of_ne_zero (by omega)
  rw [hsucc, (writing_start hsized hsize.le added).not_twoGiB hsize] at hchunks
  cases hchunks

theorem Writing.reading (h : Writing g c drawn b id k) (hall : c.length ≤ k * globalChunkSize)
    {handle : OpenFile} {rest : Bytes} (hbytes : handle.bytes = ciphers g c drawn k ++ rest)
    {s : State} (hs : s.filenode = b.enclave.filenode) :
    Reading g c drawn ⟨s.fileDecryptStart.1, handle⟩ s.fileDecryptStart.2 := by
  have hbelow : ∀ i, i * globalChunkSize < k * globalChunkSize → i < k :=
    fun i hi => Nat.lt_of_mul_lt_mul_right hi
  refine ⟨?_, ?_, ⟨⟨.decrypt, 0, 0, none, none⟩, ?_, rfl, rfl⟩, fun i hi => ?_, fun k' hk' => ?_⟩
  · exact (congrArg Filenode.log2chunksize hs).trans h.log
  · exact (congrArg Filenode.filesize hs).trans h.filesize
  · simp [State.fileDecryptStart, State.fileCryptoNew]
  · change s.filenode.chunkList[i]? = _
    rw [hs]
    exact h.chunks i (hbelow i (by omega))
  · have hle : k' ≤ k := by
      by_contra hgt
      have hmul := Nat.mul_le_mul_right globalChunkSize (show k + 1 ≤ k' by omega)
      rw [Nat.succ_mul] at hmul
      omega
    obtain ⟨between, hbetween⟩ := ciphers_append_of_le (g := g) (c := c) hle
    exact ⟨between ++ rest, by rw [hbytes, hbetween, append_assoc]⟩

/-- A new file. -/
def newFile : Backend := ⟨.create 0 0, ⟨[], 0⟩⟩

theorem newFile_sized : Sized newFile.enclave.filenode :=
  ⟨rfl, .inr ⟨rfl, rfl, rfl⟩, by decide⟩

/-- A file of any size and contents is written and read back with its metadata exactly if it
has less than 2 GiB and the metadata fits one `write`. -/
theorem roundTrips_iff {b : Backend} (hsized : Sized b.enclave.filenode) (g : Gcm) (c : Bytes)
    (added drawn : Nat → BitVec 128 × BitVec 128) (metadata : Bytes) :
    b.RoundTrips g c added drawn metadata ↔
      c.length < 2 ^ 31 ∧ metadata.length ≤ maxRwCount := by
  obtain ⟨hcover, hall⟩ := dataChunks_mul_le c.length
  constructor
  · rintro ⟨b₁, b₂, id, hwrite, -, -, hparse, -⟩
    exact ⟨length_lt_of_writeFile hsized hwrite, length_parseFilenode hparse⟩
  · rintro ⟨hsize, hmetadata⟩
    obtain ⟨b₁, hb₁, hwriting⟩ := (writing_start (g := g) (c := c) hsized hsize.le
      added).writeChunks hsize hcover
    obtain ⟨x, hx, -⟩ := hwriting.context
    obtain ⟨rest, hrest⟩ := hwriting.bytes
    have hlength : (ciphers g c drawn (Backend.dataChunks c.length)).length = c.length := by
      rw [length_ciphers]
      omega
    have hfits : (ciphers g c drawn (Backend.dataChunks c.length)).length + metadata.length <
        2 ^ 32 := by
      unfold maxRwCount at hmetadata
      omega
    obtain ⟨position, hstore⟩ := storeFilenode_eq hrest hmetadata hfits
    rw [hlength] at hstore
    obtain ⟨s₂, hfinish, hfile⟩ : ∃ s₂,
        b₁.enclave.fileCryptoFinish (b.enclave.fileEncryptStart c.length added).2 true = (s₂, true) ∧
          s₂.filenode = b₁.enclave.filenode := by
      simp [State.fileCryptoFinish, hx]
    have hreading : Reading g c drawn ⟨s₂.fileDecryptStart.1,
        ⟨stored (ciphers g c drawn (Backend.dataChunks c.length)) metadata, position⟩⟩
          s₂.fileDecryptStart.2 := hwriting.reading hall rfl hfile
    obtain ⟨b₃, hread, -⟩ := hreading.readChunks hsize hcover
    refine ⟨b₁, ⟨s₂, ⟨_, position⟩⟩, (b.enclave.fileEncryptStart c.length added).2,
      by simp only [Backend.writeFile, hb₁, map_some], ?_, ?_,
      parseFilenode_eq position hmetadata hfits, ?_⟩
    · simp only [Backend.fileCryptoFinish, hwriting.filesize, hstore, hfinish]
    · simp only [Backend.readFile, hread, map_some]
      rw [take_of_length_le hall]
    · rw [hrest, take_left' hlength]
      exact take_left' hlength

/-- A file of three bytes. -/
theorem threeBytes_roundTrips :
    newFile.RoundTrips toyGcm [1, 2, 3] (fun _ => (0, 0)) (fun _ => (5, 5)) [4, 5] :=
  (roundTrips_iff newFile_sized toyGcm [1, 2, 3] _ _ [4, 5]).mpr ⟨by decide, by decide⟩

/-- A file of 2 GiB is not even written. -/
theorem twoGiB_not_written : newFile.writeFile toyGcm (replicate (2 ^ 31) 0)
    (fun _ => (0, 0)) (fun _ => (5, 5)) = none := by
  refine Option.eq_none_iff_forall_ne_some.mpr fun r hwrite => ?_
  have hlt := length_lt_of_writeFile newFile_sized hwrite
  rw [length_replicate] at hlt
  omega

end Nexus.Files
