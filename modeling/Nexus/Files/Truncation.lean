import Nexus.Files.Read
import Nexus.Lib.Runs

/-!
# Truncated files

`ecall_fs_truncate` changes the size of a file and drops or adds chunks, and does not
encrypt anything.  What is left of a chunk that was cut has the mac of the whole chunk,
so it must not be verified; the length that is known to be encrypted is only corrected
if the number of chunks changes.
-/

namespace Nexus.Files

open Stream Runs List

/-- The bytes of the datastore from an offset on. -/
def bytesAt (data : Nat → UInt8) (offset length : Nat) : Bytes :=
  (List.range length).map fun j => data (offset + j)

/-- The contents of a chunk. -/
def chunkOf (c : Bytes) (chunk : Nat) : Bytes := (c.drop (chunk * globalChunkSize)).take globalChunkSize

/-- All of a file is encrypted, and the datastore holds the ciphertext. -/
structure FullyEncrypted (g : Gcm) (f : Filenode) (c : Bytes) (data : Nat → UInt8) : Prop where
  log : f.log2chunksize = Filenode.globalLog2chunkSize
  filesize : f.filesize = c.length
  encryptedLength : f.encryptedLength = c.length
  nchunks : c ≠ [] → f.nchunks.toNat = f.getChunkCount c.length
  chunkList : f.chunkList.length = f.nchunks.toNat
  chunks : ∀ (i : Nat) (entry : ChunkEntry), f.chunkList[i]? = some entry →
    i * globalChunkSize < c.length →
      entry.mac = g.tag entry.key entry.iv [mask (g.keystream entry.key entry.iv) 0 (chunkOf c i)] ∧
      bytesAt data (i * globalChunkSize) (chunkOf c i).length =
        mask (g.keystream entry.key entry.iv) 0 (chunkOf c i)

/-- All updates but the last are made of whole blocks of the cipher. -/
def InBlocks (pieces : List Bytes) : Prop := ∀ piece ∈ pieces.dropLast, 16 ∣ piece.length

/-- A call of `ecall_fs_truncate`: the size, what is drawn for new chunks, and whether the
filenode is stored. -/
structure Truncation where
  size : Nat
  drawn : Nat → BitVec 128 × BitVec 128
  ok : Bool

namespace State

def truncateBy (s : State) (t : Truncation) : State := s.truncate t.size t.drawn t.ok

/-- The call does not cut the chunk that the file ends in, and the number of chunks does
not overflow. -/
def KeepsReadable (s : State) (t : Truncation) : Prop :=
  let count := s.filenode.getChunkCount t.size
  let current := s.filenode.getChunkCount s.filenode.filesize
  count < 2 ^ 32 ∧ count < current + 2 ^ 31 ∧ current ≤ count + 2 ^ 31 ∧
    (count = current → t.size < s.filenode.encryptedLength → t.size % globalChunkSize = 0)

/-- Read the first chunks of a file, each in pieces. -/
def readChunks (g : Gcm) (s : State) (inputs : Nat → List Bytes) : Nat → Option Bytes
  | 0 => some []
  | k + 1 =>
    match s.readChunks g inputs k, s.readChunk g k (inputs k) with
    | some out, some chunk => some (out ++ chunk)
    | _, _ => none

end State

/-! ## The number of chunks -/

theorem toInt_ofNat_sub_ofNat {a b : Nat} (hlt : a < b + 2 ^ 31) (hle : b ≤ a + 2 ^ 31) :
    (BitVec.ofNat 32 a - BitVec.ofNat 32 b).toInt = (a : Int) - b := by
  rw [BitVec.toInt_sub, BitVec.toInt_ofNat', BitVec.toInt_ofNat', Int.bmod_sub_bmod,
    Int.sub_bmod_bmod]
  exact Int.bmod_eq_of_le (by omega) (by omega)

/-- The filenode has as many chunks as its size asks for. -/
structure Counted (f : Filenode) : Prop where
  nchunks : f.nchunks = BitVec.ofNat 32 (f.getChunkCount f.filesize)
  chunkList : f.chunkList.length = f.getChunkCount f.filesize

/-- What `filenode_set_filesize` does, if the numbers of chunks fit. -/
structure Resized (f f' : Filenode) (size : Nat) : Prop where
  log : f'.log2chunksize = f.log2chunksize
  filesize : f'.filesize = size
  counted : Counted f'
  chunks : ∀ i < min (f.getChunkCount size) (f.getChunkCount f.filesize),
    f'.chunkList[i]? = f.chunkList[i]?
  encryptedLength : f'.encryptedLength =
    if f.getChunkCount size = f.getChunkCount f.filesize then f.encryptedLength
    else min f.encryptedLength size

variable {f : Filenode}

theorem resized_setFilesize (h : Counted f) {size : Nat}
    (hlt : f.getChunkCount size < f.getChunkCount f.filesize + 2 ^ 31)
    (hle : f.getChunkCount f.filesize ≤ f.getChunkCount size + 2 ^ 31)
    (generated : Nat → ChunkEntry) : Resized f (f.setFilesize size generated) size := by
  have hdifference := toInt_ofNat_sub_ofNat hlt hle
  rw [← h.nchunks] at hdifference
  unfold Filenode.setFilesize
  split
  next hsame =>
    subst hsame
    exact ⟨rfl, rfl, h, fun _ _ => rfl, (if_pos rfl).symm⟩
  dsimp only
  rw [hdifference]
  split
  next hzero =>
    have hcount : f.getChunkCount size = f.getChunkCount f.filesize := by omega
    refine ⟨rfl, rfl, ⟨h.nchunks.trans ?_, h.chunkList.trans hcount.symm⟩, fun _ _ => rfl,
      (if_pos hcount).symm⟩
    rw [← hcount]
    rfl
  next hne =>
    have hcount : f.getChunkCount size ≠ f.getChunkCount f.filesize := fun h => hne (by omega)
    refine ⟨rfl, rfl, ⟨rfl, ?_⟩, fun i hi => ?_, ?_⟩
    · simp only [length_append, length_take, length_map, length_range,
        h.chunkList]
      change _ = f.getChunkCount size
      omega
    · dsimp only
      rw [getElem?_append_left (by rw [length_take, h.chunkList]; omega),
        getElem?_take_of_lt (by rw [h.chunkList]; omega)]
    · rw [if_neg hcount]
      dsimp only
      split <;> omega

theorem setFilesize_frame (f : Filenode) (size : Nat) (generated : Nat → ChunkEntry) :
    (f.setFilesize size generated).log2chunksize = f.log2chunksize ∧
      (f.setFilesize size generated).attributeTable = f.attributeTable ∧
      (f.setFilesize size generated).encryptedLength ≤ f.encryptedLength := by
  unfold Filenode.setFilesize
  split
  · exact ⟨rfl, rfl, le_rfl⟩
  dsimp only
  split
  · exact ⟨rfl, rfl, le_rfl⟩
  · refine ⟨rfl, rfl, ?_⟩
    dsimp only
    split <;> omega

theorem counted_setFilesize_of_new (hzero : f.filesize = 0) (hnchunks : f.nchunks = 0)
    (hchunks : f.chunkList = []) {size : Nat} (hne : size ≠ 0)
    (hsmall : f.getChunkCount size < 2 ^ 31) (generated : Nat → ChunkEntry) :
    Counted (f.setFilesize size generated) := by
  have hdifference : (BitVec.ofNat 32 (f.getChunkCount size) - f.nchunks).toInt =
      f.getChunkCount size := by
    have hsub := toInt_ofNat_sub_ofNat (a := f.getChunkCount size) (b := 0) (by omega) (by omega)
    rw [hnchunks]
    simpa using hsub
  have hpos : f.getChunkCount size ≠ 0 := Nat.succ_ne_zero _
  unfold Filenode.setFilesize
  rw [if_neg (by omega)]
  dsimp only
  rw [hdifference, if_neg (by omega)]
  exact ⟨rfl, by simp [hchunks]; rfl⟩

/-! ## Pieces in blocks -/

theorem blockBytes_of_dvd {n : Nat} (h : 16 ∣ n) : blockBytes n = n := by
  unfold blockBytes
  omega

theorem blocks_singleton (piece : Bytes) :
    blocks [piece] = piece ++ replicate (blockBytes piece.length - piece.length) 0 :=
  append_nil _

theorem blocks_append {piece : Bytes} (h : 16 ∣ piece.length) (rest : Bytes) :
    blocks [piece ++ rest] = piece ++ blocks [rest] := by
  have hlength : blockBytes (piece.length + rest.length) - (piece.length + rest.length) =
      blockBytes rest.length - rest.length := by
    unfold blockBytes
    omega
  rw [blocks_singleton, blocks_singleton, length_append, hlength, append_assoc]

theorem blocks_cons {piece : Bytes} (h : 16 ∣ piece.length) (pieces : List Bytes) :
    blocks (piece :: pieces) = piece ++ blocks pieces := by
  rw [blocks, flatMap_cons, Codec.padTo, blockBytes_of_dvd h, Nat.sub_self, replicate_zero,
    append_nil]
  rfl

theorem InBlocks.blocks_flatten {pieces : List Bytes} (h : InBlocks pieces) :
    blocks pieces = blocks [pieces.flatten] := by
  match pieces with
  | [] => rfl
  | [piece] => rw [flatten_singleton]
  | piece :: next :: pieces =>
    have hpiece : 16 ∣ piece.length := h piece mem_cons_self
    have hrest : InBlocks (next :: pieces) := fun p hp => h p (mem_cons_of_mem _ hp)
    rw [blocks_cons hpiece, flatten_cons, blocks_append hpiece, hrest.blocks_flatten]

theorem InBlocks.tag_flatten {g : Gcm} {pieces : List Bytes} (h : InBlocks pieces)
    (key iv : BitVec 128) : g.tag key iv pieces = g.tag key iv [pieces.flatten] := by
  rw [Gcm.tag, Gcm.tag, h.blocks_flatten, flatten_singleton]

theorem InBlocks.decipher_flatten {keystream : Nat → UInt8} {pieces : List Bytes}
    (h : InBlocks pieces) (pos : Nat) :
    decipher keystream pos pieces = mask keystream pos pieces.flatten := by
  match pieces with
  | [] => rfl
  | [piece] => rw [decipher, decipher, append_nil, flatten_singleton]
  | piece :: next :: pieces =>
    have hpiece : 16 ∣ piece.length := h piece mem_cons_self
    have hrest : InBlocks (next :: pieces) := fun p hp => h p (mem_cons_of_mem _ hp)
    rw [decipher, flatten_cons, mask_append, hrest.decipher_flatten, blockBytes_of_dvd hpiece]

/-! ## Sequences of truncations -/

theorem getChunkCount_eq (hlog : f.log2chunksize = Filenode.globalLog2chunkSize) (size : Nat) :
    f.getChunkCount size = size / globalChunkSize + 1 := by
  rw [Filenode.getChunkCount, Filenode.getChunkNumber_eq, Filenode.chunksize, hlog]
  rfl

/-- A file that was shorter at times; `least` is its smallest size so far. -/
structure Shortened (f₀ f : Filenode) (least : Nat) : Prop where
  log : f.log2chunksize = Filenode.globalLog2chunkSize
  counted : Counted f
  bound : least ≤ f.filesize
  /-- The chunks that were never dropped are those of the original file. -/
  chunks : ∀ i, i * globalChunkSize ≤ least → f.chunkList[i]? = f₀.chunkList[i]?
  encrypted : f.encryptedLength ≤ f₀.encryptedLength
  /-- A chunk that was cut does not count as encrypted. -/
  cut : f.encryptedLength < (least / globalChunkSize + 1) * globalChunkSize
  /-- Nor does what is left of the last chunk. -/
  last : f.encryptedLength ≤ f.filesize ∨ f.filesize % globalChunkSize = 0

variable {f₀ : Filenode} {s : State} {least : Nat}

theorem Shortened.truncate (h : Shortened f₀ s.filenode least) (t : Truncation)
    (ht : s.KeepsReadable t) :
    Shortened f₀ (s.truncateBy t).filenode (min least t.size) := by
  obtain ⟨-, hlt, hle, hcut⟩ := ht
  have hresized := resized_setFilesize h.counted hlt hle (cryptoCtxGenerate ∘ t.drawn)
  have hcount := getChunkCount_eq h.log
  have hcs : 0 < globalChunkSize := Nat.two_pow_pos _
  change Shortened f₀ (s.filenode.setFilesize t.size (cryptoCtxGenerate ∘ t.drawn)) _
  refine ⟨hresized.log.trans h.log, hresized.counted, ?_, fun i hi => ?_, ?_, ?_, ?_⟩
  · rw [hresized.filesize]
    exact Nat.min_le_right _ _
  · rw [hresized.chunks i]
    · exact h.chunks i (by omega)
    · have hbound := h.bound
      rw [hcount, hcount, lt_min_iff, Nat.lt_succ_iff, Nat.lt_succ_iff, Nat.le_div_iff_mul_le hcs,
        Nat.le_div_iff_mul_le hcs]
      omega
  · rw [hresized.encryptedLength]
    have hencrypted := h.encrypted
    split <;> omega
  · rw [hresized.encryptedLength]
    have hold := h.cut
    obtain hge | hlt := (Nat.lt_or_ge t.size least).symm
    · rw [Nat.min_eq_left hge]
      split <;> omega
    · rw [Nat.min_eq_right hlt.le]
      split
      next hsame =>
        -- all three sizes are in one chunk
        rw [hcount, hcount] at hsame
        have hlow := Nat.div_le_div_right (c := globalChunkSize) hlt.le
        have hhigh := Nat.div_le_div_right (c := globalChunkSize) h.bound
        rwa [show t.size / globalChunkSize = least / globalChunkSize by omega]
      next =>
        rw [Nat.mul_comm]
        exact lt_of_le_of_lt (Nat.min_le_right _ _) (Nat.lt_mul_div_succ _ hcs)
  · rw [hresized.encryptedLength, hresized.filesize]
    split
    next hsame => exact (Nat.lt_or_ge _ _).symm.imp (fun hge => hge) (hcut hsame)
    next => exact .inl (Nat.min_le_right _ _)

/-- The smallest size of a file of a given size that is truncated. -/
def leastSize (size : Nat) (ts : List Truncation) : Nat :=
  ts.foldl (fun least t => min least t.size) size

/-- A file that keeps readable at every truncation is shortened at the end. -/
theorem Shortened.truncates {ts : List Truncation} (h : Shortened f₀ s.filenode least)
    (hts : Meets State.truncateBy State.KeepsReadable s ts) :
    Shortened f₀ (ts.foldl State.truncateBy s).filenode (leastSize least ts) := by
  induction ts generalizing s least with
  | nil => exact h
  | cons t ts ih => exact ih (h.truncate t hts.1) hts.2

variable {data : Nat → UInt8}

variable {g : Gcm} {c : Bytes}

theorem FullyEncrypted.shortened (h : FullyEncrypted g f c data) (hc : c ≠ []) :
    Shortened f f c.length where
  log := h.log
  counted := by
    refine ⟨?_, ?_⟩
    · rw [h.filesize, ← h.nchunks hc, BitVec.ofNat_toNat, BitVec.setWidth_eq]
    · rw [h.chunkList, h.nchunks hc, h.filesize]
  bound := h.filesize.ge
  chunks := fun _ _ => rfl
  encrypted := Nat.le_refl _
  cut := by
    rw [h.encryptedLength, Nat.mul_comm]
    exact Nat.lt_mul_div_succ _ (Nat.two_pow_pos _)
  last := .inl (by rw [h.encryptedLength, h.filesize])

/-! ## Reading what is left -/

variable {data' : Nat → UInt8}

@[simp] theorem length_bytesAt (data : Nat → UInt8) (offset length : Nat) :
    (bytesAt data offset length).length = length := by
  simp [bytesAt]

theorem bytesAt_congr {offset length : Nat}
    (h : ∀ j < length, data (offset + j) = data' (offset + j)) :
    bytesAt data offset length = bytesAt data' offset length :=
  map_congr_left fun j hj => h j (mem_range.mp hj)

theorem take_bytesAt (data : Nat → UInt8) (offset length n : Nat) :
    (bytesAt data offset length).take n = bytesAt data offset (min n length) := by
  rw [bytesAt, ← map_take, take_range]
  rfl

theorem length_chunkOf (c : Bytes) (chunk : Nat) :
    (chunkOf c chunk).length = min globalChunkSize (c.length - chunk * globalChunkSize) := by
  simp [chunkOf]

section

variable (h : Shortened f₀ s.filenode least) (hfull : FullyEncrypted g f₀ c data)
  (hleast : least ≤ c.length) (hdata : ∀ j < least, data' j = data j)
  (hsize : s.filenode.filesize < 2 ^ 31)
include h hfull hleast hdata hsize

/-- A chunk below the smallest size is read, and gives the contents up to that size. -/
theorem Shortened.readChunk {chunk : Nat} (hchunk : chunk * globalChunkSize < least)
    {inputs : List Bytes} (hpieces : [] ∉ inputs) (hblocks : InBlocks inputs)
    (hinputs : inputs.flatten = bytesAt data' (chunk * globalChunkSize) (s.chunkLength chunk)) :
    ∃ out, s.readChunk g chunk inputs = some out ∧ out.length = s.chunkLength chunk ∧
      out.take (least - chunk * globalChunkSize) =
        (chunkOf c chunk).take (least - chunk * globalChunkSize) := by
  have hbound := h.bound
  have hchunkLength := State.chunkLength_eq hsize chunk
  have hpos : 0 < s.chunkLength chunk := by
    rw [hchunkLength]
    exact lt_min (by omega) (Nat.two_pow_pos _)
  have hcs : 0 < globalChunkSize := Nat.two_pow_pos _
  obtain ⟨entry, hentry⟩ : ∃ entry, f₀.chunkList[chunk]? = some entry := by
    have hc : c ≠ [] := fun hnil => by simp [hnil] at hleast; omega
    have hdiv : chunk ≤ c.length / globalChunkSize := (Nat.le_div_iff_mul_le hcs).mpr (by omega)
    have hlt : chunk < f₀.chunkList.length := by
      rw [hfull.chunkList, hfull.nchunks hc, getChunkCount_eq hfull.log]
      omega
    exact ⟨_, getElem?_eq_getElem hlt⟩
  have hentry' := (h.chunks chunk hchunk.le).trans hentry
  obtain ⟨hmac, hbytes⟩ := hfull.chunks chunk entry hentry (by omega)
  -- a chunk that is verified was never cut
  have hverified : chunk * globalChunkSize + s.chunkLength chunk < s.filenode.encryptedLength →
      entry.mac = g.tag entry.key entry.iv inputs := by
    intro hlt
    rw [hblocks.tag_flatten]
    have hwhole : s.chunkLength chunk = globalChunkSize := by
      by_contra hpart
      have hend : chunk * globalChunkSize + s.chunkLength chunk = s.filenode.filesize := by
        omega
      obtain hshort | hmultiple := h.last
      · omega
      · -- the size is strictly between two multiples
        obtain ⟨k, hk⟩ := Nat.dvd_of_mod_eq_zero hmultiple
        have hlow : chunk < k :=
          Nat.lt_of_mul_lt_mul_left (a := globalChunkSize) (by rw [← hk, Nat.mul_comm]; omega)
        have hhigh : k < chunk + 1 := by
          refine Nat.lt_of_mul_lt_mul_left (a := globalChunkSize) ?_
          rw [← hk, Nat.mul_comm, Nat.succ_mul]
          omega
        omega
    have huncut : (chunk + 1) * globalChunkSize ≤ least := by
      have hcut := lt_trans hlt h.cut
      rw [hwhole, ← Nat.succ_mul] at hcut
      have hdiv := Nat.lt_of_mul_lt_mul_right hcut
      exact (Nat.le_div_iff_mul_le hcs).mp (by omega)
    rw [Nat.succ_mul] at huncut
    have hlength : (chunkOf c chunk).length = globalChunkSize := by
      rw [length_chunkOf]
      omega
    rw [hlength] at hbytes
    have hflatten : inputs.flatten = mask (g.keystream entry.key entry.iv) 0 (chunkOf c chunk) := by
      rw [hinputs, hwhole, ← hbytes]
      exact bytesAt_congr fun j hj => hdata _ (by omega)
    rw [hmac, hflatten]
  have hread := State.readChunk_of_pieces h.log hpos (by omega) hentry'
    (by rw [hinputs, length_bytesAt]) hpieces hverified
  rw [hblocks.decipher_flatten] at hread
  refine ⟨_, hread, by rw [length_mask, hinputs, length_bytesAt], ?_⟩
  have hlength := length_chunkOf c chunk
  have hmin : min (least - chunk * globalChunkSize) (s.chunkLength chunk) =
      min (least - chunk * globalChunkSize) globalChunkSize := by
    have hle : least - chunk * globalChunkSize ≤ s.filenode.filesize - chunk * globalChunkSize :=
      Nat.sub_le_sub_right hbound _
    rw [hchunkLength, ← min_assoc, min_eq_left hle]
  have hsame : bytesAt data' (chunk * globalChunkSize)
      (min (least - chunk * globalChunkSize) globalChunkSize) =
        (bytesAt data (chunk * globalChunkSize) (chunkOf c chunk).length).take
          (least - chunk * globalChunkSize) := by
    have hle : least - chunk * globalChunkSize ≤ c.length - chunk * globalChunkSize :=
      Nat.sub_le_sub_right hleast _
    rw [take_bytesAt, hlength, min_comm globalChunkSize, ← min_assoc, min_eq_left hle]
    exact bytesAt_congr fun j hj =>
      hdata _ (Nat.add_lt_of_lt_sub' (lt_of_lt_of_le hj (min_le_left _ _)))
  rw [take_mask, hinputs, take_bytesAt, hmin, hsame, hbytes, take_mask, mask_mask]

/-- The chunks that cover the smallest size are read, and give the contents up to it. -/
theorem Shortened.readChunks {inputs : Nat → List Bytes}
    (hinputs : ∀ i, i * globalChunkSize < least → [] ∉ inputs i ∧ InBlocks (inputs i) ∧
      (inputs i).flatten = bytesAt data' (i * globalChunkSize) (s.chunkLength i)) {k : Nat}
    (hk : k * globalChunkSize < least + globalChunkSize) :
    ∃ out, s.readChunks g inputs k = some out ∧
      out.take least = c.take (min least (k * globalChunkSize)) ∧
      (k * globalChunkSize ≤ least → out.length = k * globalChunkSize) := by
  induction k with
  | zero => exact ⟨[], rfl, by simp, by simp⟩
  | succ k ih =>
    rw [Nat.succ_mul] at hk
    obtain ⟨out, hout, hstart, hlength⟩ := ih (by omega)
    have hcover : k * globalChunkSize < least := by omega
    obtain ⟨hpieces, hblocks, hflatten⟩ := hinputs k hcover
    obtain ⟨chunk, hchunk, hchunkLength, hchunkPrefix⟩ :=
      h.readChunk hfull hleast hdata hsize hcover hpieces hblocks hflatten
    have hout' := hlength (by omega)
    refine ⟨out ++ chunk, by simp only [State.readChunks, hout, hchunk], ?_, fun hle => ?_⟩
    · rw [take_of_length_le (by omega), Nat.min_eq_right (by omega)] at hstart
      rw [take_append, hout', take_of_length_le (by omega), hstart, hchunkPrefix, chunkOf,
        take_take, Nat.succ_mul, ← take_add]
      congr 1
      omega
    · rw [Nat.succ_mul] at hle
      have hbound := h.bound
      rw [length_append, hout', hchunkLength, State.chunkLength_eq hsize, Nat.succ_mul]
      omega

end

theorem leastSize_le (size : Nat) (ts : List Truncation) : leastSize size ts ≤ size := by
  induction ts generalizing size with
  | nil => exact Nat.le_refl _
  | cons t ts ih => exact (ih _).trans (Nat.min_le_left _ _)

/-! ## A file of two bytes -/

/-- A cipher whose mac tells the bytes 7 and 8 from everything else. -/
def pairGcm : Gcm where
  keystream := fun _ _ _ => 0
  mac := fun _ _ c n => if c.take 2 = [7, 8] ∧ n = 2 then 1 else 2

/-- The file that holds them. -/
def pairFile : State where
  filenode :=
    { Filenode.create 0 0 with
      filesize := 2, encryptedLength := 2, nchunks := 1, chunkList := [⟨0, 0, 1⟩] }
  stored := .create 0 0
  xferTable := fun _ => none
  xferCounter := 0

/-- The ciphertext in the datastore. -/
def pairData (offset : Nat) : UInt8 := if offset = 0 then 7 else 8

theorem pairFile_fullyEncrypted : FullyEncrypted pairGcm pairFile.filenode [7, 8] pairData where
  log := rfl
  filesize := rfl
  encryptedLength := rfl
  nchunks := fun _ => by decide
  chunkList := rfl
  chunks := by
    intro i entry hentry hi
    cases i with
    | zero =>
      cases hentry
      exact ⟨by decide, by decide⟩
    | succ i => cases hentry

end Nexus.Files
